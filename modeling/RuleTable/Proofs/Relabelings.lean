import Mathlib
import RuleTable.Symmetry.Group

/-!
Relabelings as permutations, and the groups they generate.

A list in which nothing repeats is told by its elements in order; the breadth-first search adds
relabelings to such a list, follows each of them by every generator, and has rounds for all there
can be. So what it finds is closed under products, and being finite it is a group.
-/

namespace RuleTable

/-- A list is told by its elements in order. -/
lemma map_getD_range {α : Type} (l : List α) (d : α) :
    (List.range l.length).map (l.getD · d) = l := by
  refine List.ext_getElem (by simp) fun i hi hi' => ?_
  simp [List.getElem?_eq_getElem hi']

/-! ### Lists without repeats -/

namespace Distinct

variable {α : Type} [BEq α] [Hashable α]

/-- The set holds what the list holds, and nothing repeats. -/
structure Sound (d : Distinct α) : Prop where
  nodup : d.toList.Nodup
  seen : ∀ a, a ∈ d.seen ↔ a ∈ d.toList

lemma sound_empty : (empty : Distinct α).Sound := ⟨by simp [empty, toList], by simp [empty, toList]⟩

lemma contains_iff {d : Distinct α} (h : d.Sound) {a : α} : d.contains a = true ↔ a ∈ d.toList :=
  h.seen a

variable [LawfulBEq α]

lemma toList_insert {d : Distinct α} (h : d.Sound) (a : α) :
    (d.insert a).toList = if a ∈ d.toList then d.toList else d.toList ++ [a] := by
  unfold insert
  by_cases ha : a ∈ d.toList
  · have hc : d.seen.contains a = true := (h.seen a).mpr ha
    rw [if_pos hc, if_pos ha]
  · have hc : ¬ d.seen.contains a = true := mt (h.seen a).mp ha
    rw [if_neg hc, if_neg ha]
    simp [toList]

lemma mem_insert {d : Distinct α} (h : d.Sound) {a b : α} :
    b ∈ (d.insert a).toList ↔ b ∈ d.toList ∨ b = a := by
  rw [toList_insert h]
  split
  · next ha => exact ⟨.inl, fun h => h.elim id fun h => h ▸ ha⟩
  · simp

lemma Sound.insert {d : Distinct α} (h : d.Sound) (a : α) : (d.insert a).Sound where
  nodup := by
    rw [toList_insert h]
    split
    · exact h.nodup
    · next ha =>
      rw [List.nodup_append]
      exact ⟨h.nodup, List.nodup_singleton a, by
        rintro b hb c hc rfl
        rw [List.mem_singleton.mp hc] at hb
        exact ha hb⟩
  seen := by
    intro b
    rw [mem_insert h]
    unfold Distinct.insert
    split
    · next ha =>
      rw [h.seen]
      exact ⟨.inl, fun hb => hb.elim id fun hb => hb ▸ (h.seen a).mp ha⟩
    · rw [Std.HashSet.mem_insert, h.seen]
      simp only [beq_iff_eq]
      tauto

lemma Sound.foldl_insert {d : Distinct α} (h : d.Sound) (l : List α) :
    (l.foldl Distinct.insert d).Sound ∧
      (∀ a, a ∈ (l.foldl Distinct.insert d).toList ↔ a ∈ d.toList ∨ a ∈ l) ∧
      d.toList <+: (l.foldl Distinct.insert d).toList := by
  induction l generalizing d with
  | nil => exact ⟨h, by simp, List.prefix_rfl⟩
  | cons b l ih =>
    obtain ⟨hs, hm, hp⟩ := ih (h.insert b)
    refine ⟨hs, fun a => ?_, List.IsPrefix.trans ?_ hp⟩
    · rw [List.foldl_cons, hm, mem_insert h, List.mem_cons]
      tauto
    · rw [toList_insert h]
      split
      · exact List.prefix_rfl
      · exact List.prefix_append _ _

lemma sound_ofList (l : List α) : (ofList l).Sound := (sound_empty.foldl_insert l).1

lemma mem_ofList {l : List α} {a : α} : a ∈ (ofList l).toList ↔ a ∈ l := by
  have := (sound_empty.foldl_insert l).2.1 a
  simpa [ofList, empty, toList] using this

end Distinct

/-! ### Permutations -/

namespace Relabeling

variable {n : ℕ} {p q r : Relabeling}

/-- Every position below `n` is named exactly once. -/
def IsPerm (n : ℕ) (p : Relabeling) : Prop := p.Perm (List.range n)

lemma IsPerm.length (h : IsPerm n p) : p.length = n := by
  simpa using List.Perm.length_eq h

lemma IsPerm.mem_iff (h : IsPerm n p) {i : ℕ} : i ∈ p ↔ i < n := by
  rw [List.Perm.mem_iff h, List.mem_range]

lemma IsPerm.nodup (h : IsPerm n p) : p.Nodup :=
  (List.Perm.nodup_iff h).mpr List.nodup_range

lemma isPerm_identity (n : ℕ) : IsPerm n (identity n) := List.Perm.refl _

lemma IsPerm.andThen (hp : IsPerm n p) (hq : IsPerm n q) : IsPerm n (p.andThen q) := by
  have h : (p.andThen q).Perm ((List.range n).map fun i => p.getD i 0) := List.Perm.map _ hq
  rw [← hp.length, map_getD_range] at h
  exact h.trans hp

lemma andThen_identity (h : p.length = n) : p.andThen (identity n) = p :=
  h ▸ map_getD_range p 0

lemma identity_andThen (h : ∀ i ∈ q, i < n) : (identity n).andThen q = q := by
  refine (List.map_congr_left fun i hi => ?_).trans (List.map_id q)
  simp [identity, List.getD_eq_getElem?_getD, h i hi]

lemma andThen_assoc (h : ∀ i ∈ r, i < q.length) :
    (p.andThen q).andThen r = p.andThen (q.andThen r) := by
  unfold andThen
  rw [List.map_map]
  refine List.map_congr_left fun i hi => ?_
  simp [List.getD_eq_getElem?_getD, h i hi]

lemma IsPerm.assoc (hq : IsPerm n q) (hr : IsPerm n r) :
    (p.andThen q).andThen r = p.andThen (q.andThen r) :=
  andThen_assoc fun i hi => by rw [hq.length]; exact hr.mem_iff.mp hi

lemma IsPerm.andThen_cancel (hp : IsPerm n p) (hq : IsPerm n q) (hr : IsPerm n r)
    (h : p.andThen q = p.andThen r) : q = r := by
  refine List.ext_getElem (hq.length.trans hr.length.symm) fun i hi hi' => ?_
  have hqi : q[i] < p.length := by rw [hp.length]; exact hq.mem_iff.mp (List.getElem_mem hi)
  have hri : r[i] < p.length := by rw [hp.length]; exact hr.mem_iff.mp (List.getElem_mem hi')
  have he : (p.andThen q)[i]? = (p.andThen r)[i]? := by rw [h]
  simp only [Relabeling.andThen, List.getElem?_map, List.getElem?_eq_getElem hi,
    List.getElem?_eq_getElem hi', Option.map_some, Option.some.injEq, List.getD_eq_getElem?_getD,
    List.getElem?_eq_getElem hqi, List.getElem?_eq_getElem hri, Option.getD_some] at he
  exact (List.Nodup.getElem_inj_iff hp.nodup).mp he

/-! ### The search for products -/

variable {gens : List Relabeling} {i : ℕ} {found : Distinct Relabeling}

inductive Product (n : ℕ) (gens : List Relabeling) : Relabeling → Prop
  | one : Product n gens (identity n)
  | snoc {p g : Relabeling} (hp : Product n gens p) (hg : g ∈ gens) : Product n gens (p.andThen g)

lemma Product.isPerm (hgens : ∀ g ∈ gens, IsPerm n g) (hp : Product n gens p) : IsPerm n p := by
  induction hp with
  | one => exact isPerm_identity n
  | snoc _ hg ih => exact ih.andThen (hgens _ hg)

lemma Product.mono {gens' : List Relabeling} (h : gens ⊆ gens') (hp : Product n gens p) :
    Product n gens' p := by
  induction hp with
  | one => exact .one
  | snoc _ hg ih => exact .snoc ih (h hg)

/-- How far the search has come: all before place `i` have been followed by every generator. -/
structure Searched (n : ℕ) (gens : List Relabeling) (i : ℕ) (found : Distinct Relabeling) :
    Prop where
  sound : found.Sound
  product : ∀ p ∈ found.toList, Product n gens p
  one : identity n ∈ found.toList
  followed : ∀ j p, j < i → found.toList[j]? = some p → ∀ g ∈ gens, p.andThen g ∈ found.toList

lemma searched_start (n : ℕ) (gens : List Relabeling) :
    Searched n gens 0 (Distinct.empty.insert (identity n)) where
  sound := Distinct.sound_empty.insert _
  product := by
    intro p hp
    rw [Distinct.mem_insert Distinct.sound_empty] at hp
    rcases hp with hp | rfl
    · simp [Distinct.empty, Distinct.toList] at hp
    · exact .one
  one := by simp [Distinct.mem_insert Distinct.sound_empty]
  followed := by simp

/-- One round follows the next relabeling by every generator. -/
lemma Searched.step (h : Searched n gens i found) (hp : found.toList[i]? = some p) :
    Searched n gens (i + 1) (gens.foldl (fun d g => d.insert (p.andThen g)) found) := by
  obtain ⟨hs, hm, hprefix⟩ := h.sound.foldl_insert (gens.map p.andThen)
  rw [List.foldl_map] at hs hm hprefix
  refine ⟨hs, fun q hq => ?_, (hm _).mpr (.inl h.one), fun j q hj hq g hg => (hm _).mpr ?_⟩
  · rcases (hm q).mp hq with hq | hq
    · exact h.product q hq
    · obtain ⟨g, hg, rfl⟩ := List.mem_map.mp hq
      exact .snoc (h.product p (List.mem_of_getElem? hp)) hg
  · have hlt : i < found.toList.length := (List.getElem?_eq_some_iff.mp hp).1
    have hsame : found.toList[j]? = some q := by
      obtain ⟨more, hmore⟩ := hprefix
      rw [← hq, ← hmore, List.getElem?_append_left (by omega)]
    rcases Nat.lt_succ_iff_lt_or_eq.mp hj with hj | rfl
    · exact .inl (h.followed j q hj hsame g hg)
    · rw [hp, Option.some.injEq] at hsame
      exact .inr (List.mem_map.mpr ⟨g, hg, by rw [hsame]⟩)

lemma count_eq_factorial (n : ℕ) : count n = n.factorial := by
  induction n with
  | zero => rfl
  | succ n ih => rw [count, ih, Nat.factorial_succ]

/-- There are no more relabelings than rounds. -/
lemma length_le_count {l : List Relabeling} (hd : l.Nodup) (hl : ∀ p ∈ l, IsPerm n p) :
    l.length ≤ count n := by
  have hsub : l ⊆ (List.range n).permutations := fun p hp => List.mem_permutations.mpr (hl p hp)
  calc l.length ≤ (List.range n).permutations.length := (hd.subperm hsub).length_le
    _ = count n := by rw [List.length_permutations, List.length_range, count_eq_factorial]

lemma Searched.closureFrom (hgens : ∀ g ∈ gens, IsPerm n g) {rounds : ℕ}
    (h : Searched n gens i found) (hr : count n ≤ rounds + i) :
    ∃ k, Searched n gens k (closureFrom gens rounds i found) ∧
      (Relabeling.closureFrom gens rounds i found).toList.length ≤ k := by
  induction rounds generalizing i found with
  | zero =>
    have hlen := length_le_count h.sound.nodup fun p hp => (h.product p hp).isPerm hgens
    exact ⟨i, h, by rw [Relabeling.closureFrom]; omega⟩
  | succ rounds ih =>
    have hitems : found.items[i]? = found.toList[i]? := by simp [Distinct.toList]
    rw [Relabeling.closureFrom, hitems]
    cases hp : found.toList[i]? with
    | none => exact ⟨i, h, List.getElem?_eq_none_iff.mp hp⟩
    | some p => exact ih (h.step hp) (by omega)

lemma searched_closure (hgens : ∀ g ∈ gens, IsPerm n g) :
    ∃ k, Searched n gens k (closure n gens) ∧ (closure n gens).toList.length ≤ k :=
  (searched_start n gens).closureFrom hgens (le_refl (count n + 0))

lemma sound_closure (hgens : ∀ g ∈ gens, IsPerm n g) : (closure n gens).Sound :=
  (searched_closure hgens).choose_spec.1.sound

/-- **The search is complete.** It finds the products of the generators. -/
lemma mem_closure_iff (hgens : ∀ g ∈ gens, IsPerm n g) :
    p ∈ (closure n gens).toList ↔ Product n gens p := by
  obtain ⟨k, h, hk⟩ := searched_closure hgens
  refine ⟨h.product p, fun hp => ?_⟩
  induction hp with
  | one => exact h.one
  | snoc _ hg ih =>
    obtain ⟨j, hj, hp⟩ := List.mem_iff_getElem.mp ih
    exact h.followed j _ (by omega) (hp ▸ List.getElem?_eq_getElem hj) _ hg

/-! ### Groups -/

structure IsGroup (n : ℕ) (s : List Relabeling) : Prop where
  perm : ∀ p ∈ s, IsPerm n p
  one : identity n ∈ s
  mul : ∀ p ∈ s, ∀ q ∈ s, p.andThen q ∈ s

/-- A finite set of permutations that is closed under products has inverses: following by `p` is
injective on it, so something followed by `p` is the identity. -/
lemma IsGroup.inverse {s : List Relabeling} (h : IsGroup n s) (hp : p ∈ s) :
    ∃ q ∈ s, p.andThen q = identity n := by
  have hinj : Set.InjOn p.andThen (s.toFinset : Set Relabeling) := by
    intro q hq r hr hqr
    rw [SetLike.mem_coe, List.mem_toFinset] at hq hr
    exact (h.perm p hp).andThen_cancel (h.perm q hq) (h.perm r hr) hqr
  have hmaps : s.toFinset.image p.andThen ⊆ s.toFinset := by
    intro r hr
    obtain ⟨q, hq, rfl⟩ := Finset.mem_image.mp hr
    exact List.mem_toFinset.mpr (h.mul p hp q (List.mem_toFinset.mp hq))
  have hall := Finset.eq_of_subset_of_card_le hmaps (Finset.card_image_of_injOn hinj).ge
  have hone : identity n ∈ s.toFinset.image p.andThen := by
    rw [hall]
    exact List.mem_toFinset.mpr h.one
  obtain ⟨q, hq, hpq⟩ := Finset.mem_image.mp hone
  exact ⟨q, List.mem_toFinset.mp hq, hpq⟩

lemma Product.andThen (hgens : ∀ g ∈ gens, IsPerm n g) (hp : Product n gens p)
    (hq : Product n gens q) : Product n gens (p.andThen q) := by
  induction hq with
  | one => rwa [andThen_identity (hp.isPerm hgens).length]
  | snoc hq hg ih =>
    rw [← (hq.isPerm hgens).assoc (hgens _ hg)]
    exact .snoc ih hg

/-- **What permutations generate is a group.** -/
lemma isGroup_closure (hgens : ∀ g ∈ gens, IsPerm n g) : IsGroup n (closure n gens).toList where
  perm _ hp := ((mem_closure_iff hgens).mp hp).isPerm hgens
  one := (mem_closure_iff hgens).mpr .one
  mul _ hp _ hq := (mem_closure_iff hgens).mpr
    (((mem_closure_iff hgens).mp hp).andThen hgens ((mem_closure_iff hgens).mp hq))

/-! ### Reading through a relabeling -/

variable {α β : Type} {xs : List α}

def apply (p : Relabeling) (xs : List α) : List α := p.filterMap (xs[·]?)

lemma relabel?_eq_some_iff {ys : List α} :
    p.relabel? xs = some ys ↔ (∀ i ∈ p, i < xs.length) ∧ p.apply xs = ys := by
  induction p generalizing ys with
  | nil => simp [relabel?, apply]
  | cons i p ih =>
    have hcons : relabel? (i :: p) xs =
        xs[i]?.bind fun x => (relabel? p xs).map (x :: ·) := by
      simp only [relabel?, List.mapM_cons]
      cases xs[i]? <;> cases p.mapM fun i => xs[i]? <;> rfl
    rw [hcons]
    cases hx : xs[i]? with
    | none =>
      have : ¬ i < xs.length := by simpa using hx
      simp [this]
    | some x =>
      have hi : i < xs.length := (List.getElem?_eq_some_iff.mp hx).1
      simp only [Option.bind_some, Option.map_eq_some_iff, List.mem_cons, forall_eq_or_imp, hi,
        true_and, ih, apply, List.filterMap_cons, hx]
      constructor
      · rintro ⟨ys, ⟨h, rfl⟩, rfl⟩
        exact ⟨h, rfl⟩
      · rintro ⟨h, rfl⟩
        exact ⟨_, ⟨h, rfl⟩, rfl⟩

lemma IsPerm.relabel? (hp : IsPerm n p) (hx : xs.length = n) :
    p.relabel? xs = some (p.apply xs) :=
  relabel?_eq_some_iff.mpr ⟨fun _ hi => hx ▸ hp.mem_iff.mp hi, rfl⟩

lemma apply_cons {i : ℕ} (hi : i < xs.length) : apply (i :: p) xs = xs[i] :: p.apply xs := by
  simp [apply, List.getElem?_eq_getElem hi]

lemma length_apply (h : ∀ i ∈ p, i < xs.length) : (p.apply xs).length = p.length := by
  induction p with
  | nil => rfl
  | cons i p ih =>
    rw [apply_cons (h i List.mem_cons_self), List.length_cons, List.length_cons,
      ih fun j hj => h j (List.mem_cons_of_mem _ hj)]

lemma getElem?_apply (h : ∀ i ∈ p, i < xs.length) (k : ℕ) :
    (p.apply xs)[k]? = p[k]?.bind (xs[·]?) := by
  induction p generalizing k with
  | nil => simp [apply]
  | cons i p ih =>
    have hi : i < xs.length := h i List.mem_cons_self
    rw [apply_cons hi]
    cases k with
    | zero => simp [hi]
    | succ k => simpa using ih (fun j hj => h j (List.mem_cons_of_mem _ hj)) k

lemma IsPerm.lt_length (hp : IsPerm n p) (hx : xs.length = n) : ∀ i ∈ p, i < xs.length :=
  fun _ hi => hx ▸ hp.mem_iff.mp hi

lemma IsPerm.length_apply (hp : IsPerm n p) (hx : xs.length = n) : (p.apply xs).length = n :=
  (Relabeling.length_apply (hp.lt_length hx)).trans hp.length

lemma apply_identity (hx : xs.length = n) : (identity n).apply xs = xs := by
  refine List.ext_getElem? fun k => ?_
  rw [getElem?_apply (by simp [identity, hx])]
  by_cases hk : k < n
  · simp [identity, hk]
  · simp [identity, hk, hx]

/-- Reading through a product is reading through one factor after the other. -/
lemma apply_andThen (hp : ∀ i ∈ p, i < xs.length) (hq : ∀ i ∈ q, i < p.length) :
    (p.andThen q).apply xs = q.apply (p.apply xs) := by
  rw [apply, apply, andThen, List.filterMap_map]
  refine List.filterMap_congr fun i hi => ?_
  have hi : i < p.length := hq i hi
  rw [getElem?_apply hp, List.getElem?_eq_getElem hi, Function.comp_apply,
    List.getD_eq_getElem?_getD, List.getElem?_eq_getElem hi]
  rfl

lemma IsPerm.apply_andThen (hp : IsPerm n p) (hq : IsPerm n q) (hx : xs.length = n) :
    (p.andThen q).apply xs = q.apply (p.apply xs) :=
  Relabeling.apply_andThen (hp.lt_length hx) fun _ hi => hp.length ▸ hq.mem_iff.mp hi

/-- A permutation loses nothing. -/
lemma IsPerm.mem_apply (hp : IsPerm n p) (hx : xs.length = n) {x : α} (h : x ∈ xs) :
    x ∈ p.apply xs := by
  obtain ⟨i, hi⟩ := List.mem_iff_getElem?.mp h
  have hlt : i < n := hx ▸ (List.getElem?_eq_some_iff.mp hi).1
  exact List.mem_filterMap.mpr ⟨i, hp.mem_iff.mpr hlt, hi⟩

lemma apply_map (f : α → β) : p.apply (xs.map f) = (p.apply xs).map f := by
  simp only [apply, List.map_filterMap, List.getElem?_map]

/-- Relabelings that make the same of different things are the same. -/
lemma IsPerm.apply_inj (hp : IsPerm n p) (hq : IsPerm n q) (hx : xs.length = n) (hd : xs.Nodup)
    (h : p.apply xs = q.apply xs) : p = q := by
  refine List.ext_getElem (hp.length.trans hq.length.symm) fun k hk hk' => ?_
  have hlt : p[k] < xs.length := hp.lt_length hx _ (List.getElem_mem hk)
  have hlt' : q[k] < xs.length := hq.lt_length hx _ (List.getElem_mem hk')
  have hget := congrArg (·[k]?) h
  simp only [getElem?_apply (hp.lt_length hx), getElem?_apply (hq.lt_length hx),
    List.getElem?_eq_getElem hk, List.getElem?_eq_getElem hk', Option.bind_some,
    List.getElem?_eq_getElem hlt, List.getElem?_eq_getElem hlt', Option.some.injEq] at hget
  exact (List.Nodup.getElem_inj_iff hd).mp hget

/-- What a member of a group does to lists, another undoes. -/
lemma IsGroup.undo {s : List Relabeling} (h : IsGroup n s) (hp : p ∈ s) :
    ∃ q ∈ s, ∀ xs : List α, xs.length = n → q.apply (p.apply xs) = xs := by
  obtain ⟨q, hq, hpq⟩ := h.inverse hp
  refine ⟨q, hq, fun xs hx => ?_⟩
  rw [← (h.perm p hp).apply_andThen (h.perm q hq) hx, hpq, apply_identity hx]

/-! ### Undoing a relabeling -/

lemma foldl_set_of_notMem {l : List (ℕ × ℕ)} {source : ℕ} (h : source ∉ l.map Prod.fst)
    (out : List ℕ) : (l.foldl (fun out q => out.set q.1 q.2) out)[source]? = out[source]? := by
  induction l generalizing out with
  | nil => rfl
  | cons q l ih =>
    rw [List.map_cons, List.mem_cons, not_or] at h
    rw [List.foldl_cons, ih h.2, List.getElem?_set_ne (Ne.symm h.1)]

lemma foldl_set_of_mem {l : List (ℕ × ℕ)} (hl : (l.map Prod.fst).Nodup) {source i : ℕ}
    (h : (source, i) ∈ l) (out : List ℕ) (hlt : source < out.length) :
    (l.foldl (fun out q => out.set q.1 q.2) out)[source]? = some i := by
  induction l generalizing out with
  | nil => cases h
  | cons q l ih =>
    rw [List.map_cons, List.nodup_cons] at hl
    rw [List.foldl_cons]
    rcases List.mem_cons.mp h with rfl | h
    · rw [foldl_set_of_notMem hl.1, List.getElem?_set_self hlt]
    · exact ih hl.2 h _ (by rwa [List.length_set])

lemma length_inverse (p : Relabeling) : p.inverse.length = p.length := by
  have hset : ∀ (l : List (ℕ × ℕ)) (out : List ℕ),
      (l.foldl (fun out q => out.set q.1 q.2) out).length = out.length := by
    intro l
    induction l with
    | nil => exact fun _ => rfl
    | cons q l ih => intro out; rw [List.foldl_cons, ih, List.length_set]
  rw [inverse]
  exact (hset _ _).trans List.length_replicate

/-- The value at a position comes back to it. -/
lemma IsPerm.getElem?_inverse (hp : IsPerm n p) {i j : ℕ} (h : p[i]? = some j) :
    p.inverse[j]? = some i := by
  have hfst : p.zipIdx.map Prod.fst = p := List.zipIdx_map_fst 0 p
  refine foldl_set_of_mem ?_ ?_ _ ?_
  · rw [hfst]
    exact hp.nodup
  · exact List.mem_zipIdx_iff_getElem?.mpr h
  · rw [List.length_replicate, hp.length]
    exact hp.mem_iff.mp (List.mem_of_getElem? h)

lemma IsPerm.getElem?_of_inverse (hp : IsPerm n p) {i j : ℕ} (h : p.inverse[j]? = some i) :
    p[i]? = some j := by
  have hj : j ∈ p := by
    rw [hp.mem_iff, ← hp.length, ← length_inverse]
    exact (List.getElem?_eq_some_iff.mp h).1
  obtain ⟨k, hk⟩ := List.mem_iff_getElem?.mp hj
  obtain rfl : k = i := Option.some.inj ((hp.getElem?_inverse hk).symm.trans h)
  exact hk

lemma IsPerm.inverse (hp : IsPerm n p) : IsPerm n p.inverse := by
  have hmem : ∀ i, i ∈ p.inverse ↔ i < n := by
    intro i
    constructor
    · intro hi
      obtain ⟨j, hj⟩ := List.mem_iff_getElem?.mp hi
      rw [← hp.length]
      exact (List.getElem?_eq_some_iff.mp (hp.getElem?_of_inverse hj)).1
    · intro hi
      have hlt : i < p.length := by rwa [hp.length]
      exact List.mem_of_getElem? (hp.getElem?_inverse (List.getElem?_eq_getElem hlt))
  have hnodup : p.inverse.Nodup := by
    rw [List.nodup_iff_getElem?_ne_getElem?]
    intro j k hjk hk he
    have hj := List.getElem?_eq_getElem (hjk.trans hk)
    have hj' := hp.getElem?_of_inverse hj
    rw [hp.getElem?_of_inverse (he.symm.trans hj)] at hj'
    exact hjk.ne (Option.some.inj hj').symm
  exact (List.perm_ext_iff_of_nodup hnodup List.nodup_range).mpr fun i => by
    rw [hmem, List.mem_range]

lemma IsPerm.apply_apply (hp : IsPerm n p) (hq : IsPerm n q)
    (h : ∀ i j : ℕ, p[i]? = some j → q[j]? = some i) (hx : xs.length = n) :
    p.apply (q.apply xs) = xs := by
  refine List.ext_getElem? fun i => ?_
  rw [getElem?_apply (hp.lt_length (hq.length_apply hx))]
  cases hi : p[i]? with
  | none =>
    rw [List.getElem?_eq_none_iff, hp.length, ← hx] at hi
    exact (List.getElem?_eq_none hi).symm
  | some j =>
    rw [Option.bind_some, getElem?_apply (hq.lt_length hx), h i j hi, Option.bind_some]

lemma IsPerm.apply_inverse (hp : IsPerm n p) (hx : xs.length = n) :
    p.apply (p.inverse.apply xs) = xs :=
  hp.apply_apply hp.inverse (fun _ _ => hp.getElem?_inverse) hx

lemma IsPerm.inverse_apply (hp : IsPerm n p) (hx : xs.length = n) :
    p.inverse.apply (p.apply xs) = xs :=
  hp.inverse.apply_apply hp (fun _ _ => hp.getElem?_of_inverse) hx

lemma forall₂_apply {R : α → β → Prop} {ys : List β} (hp : ∀ i ∈ p, i < xs.length)
    (h : List.Forall₂ R xs ys) : List.Forall₂ R (p.apply xs) (p.apply ys) := by
  induction p with
  | nil => exact .nil
  | cons i p ih =>
    have hi := hp i List.mem_cons_self
    rw [apply_cons hi, apply_cons (h.length_eq ▸ hi)]
    exact .cons ((List.forall₂_iff_get.mp h).2 i hi _)
      (ih fun i hi => hp i (List.mem_cons_of_mem _ hi))

/-- Rearranging two lists alike changes nothing about how their elements correspond. -/
lemma IsPerm.forall₂_apply_iff {R : α → β → Prop} {ys : List β} (hp : IsPerm n p)
    (hx : xs.length = n) (hy : ys.length = n) :
    List.Forall₂ R (p.apply xs) (p.apply ys) ↔ List.Forall₂ R xs ys := by
  refine ⟨fun h => ?_, forall₂_apply (hp.lt_length hx)⟩
  have := forall₂_apply (hp.inverse.lt_length (hp.length_apply hx)) h
  rwa [hp.inverse_apply hx, hp.inverse_apply hy] at this

end Relabeling

end RuleTable
