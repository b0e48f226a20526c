import RuleTable.Proofs.Successors

/-!
Two ways to list the permutations of some positions.

One puts each of the remaining values in turn at the next place, goes on with the others, and
exchanges the two back; the other is the search for what exchanges of neighbors generate. The first
leaves its row as it was and lists each ordering of the values once. Both list the permutations that
move none but these positions, because such a permutation is told by the order in which it puts the
positions.
-/

namespace RuleTable.Relabeling

/-! ### Orderings of distinct values -/

section Orderings

variable {α : Type} {k i : ℕ} {l values xs : List α} {x y : α}

lemma exists_append_of_place (h : xs[i]? = some y) (x : α) :
    ∃ u v, xs = u ++ y :: v ∧ xs.set i x = u ++ x :: v ∧ i = u.length := by
  obtain ⟨hi, rfl⟩ := List.getElem?_eq_some_iff.mp h
  obtain ⟨u, v, hxs, hlen, hset⟩ : ∃ u v, xs = u ++ xs[i] :: v ∧ u.length = i ∧
      xs.set i x = u ++ x :: v := List.exists_of_set hi
  exact ⟨u, v, hxs, hset, hlen.symm⟩

/-- A value changes places with one before the list. -/
lemma cons_set_perm (h : xs[i]? = some y) : (y :: xs.set i x).Perm (x :: xs) := by
  obtain ⟨u, v, hxs, hset, -⟩ := exists_append_of_place h x
  rw [hset, hxs]
  exact exchange_perm u v x y

/-- The orderings of a list are the lists with the same values. -/
lemma mem_orderings (h : l.length = k) : values ∈ orderings k l ↔ values.Perm l := by
  induction k generalizing l values with
  | zero =>
    rw [List.length_eq_zero_iff.mp h]
    simp [orderings]
  | succ k ih =>
    cases l with
    | nil => simp at h
    | cons x xs =>
      have hlen : xs.length = k := by simpa using h
      simp only [orderings, List.mem_append, List.mem_map, List.mem_flatMap, Prod.exists,
        List.mem_zipIdx_iff_getElem?]
      constructor
      · rintro (⟨rest, hrest, rfl⟩ | ⟨y, i, hi, rest, hrest, rfl⟩)
        · exact ((ih hlen).mp hrest).cons x
        · rw [ih (by rwa [List.length_set])] at hrest
          exact (hrest.cons y).trans (cons_set_perm hi)
      · intro hp
        cases values with
        | nil => simp at hp
        | cons y rest =>
          rcases List.mem_cons.mp (hp.mem_iff.mp List.mem_cons_self) with rfl | hy
          · exact .inl ⟨rest, (ih hlen).mpr hp.cons_inv, rfl⟩
          · obtain ⟨i, hi⟩ := List.mem_iff_getElem?.mp hy
            refine .inr ⟨y, i, hi, rest, (ih (by rwa [List.length_set])).mpr ?_, rfl⟩
            exact (hp.trans (cons_set_perm hi).symm).cons_inv

/-- Distinct values have each ordering once. -/
lemma nodup_orderings (hd : l.Nodup) : (orderings k l).Nodup := by
  induction k generalizing l with
  | zero => exact List.nodup_singleton _
  | succ k ih =>
    cases l with
    | nil => exact List.nodup_singleton _
    | cons x xs =>
      obtain ⟨hx, hxs⟩ := List.nodup_cons.mp hd
      have hset : ∀ {y i}, xs[i]? = some y → (xs.set i x).Nodup := fun hi =>
        (List.nodup_cons.mp ((cons_set_perm hi).nodup_iff.mpr hd)).2
      have hheads : xs.zipIdx.Pairwise fun p q => p.1 ≠ q.1 := by
        rw [← List.pairwise_map (f := Prod.fst) (R := (· ≠ ·)), List.zipIdx_map_fst]
        exact hxs
      rw [orderings, List.nodup_append]
      refine ⟨(ih hxs).map List.cons_injective, List.nodup_flatMap.mpr ⟨?_, ?_⟩, ?_⟩
      · rintro ⟨y, i⟩ hy
        exact (ih (hset (List.mem_zipIdx_iff_getElem?.mp hy))).map List.cons_injective
      · refine hheads.imp fun hne => List.disjoint_left.mpr ?_
        intro values hy hz
        obtain ⟨_, -, rfl⟩ := List.mem_map.mp hy
        obtain ⟨_, -, he⟩ := List.mem_map.mp hz
        exact hne (List.cons.inj he).1.symm
      · rintro values hv values' hv' rfl
        obtain ⟨_, -, rfl⟩ := List.mem_map.mp hv
        obtain ⟨⟨y, i⟩, hy, hv'⟩ := List.mem_flatMap.mp hv'
        obtain ⟨_, -, he⟩ := List.mem_map.mp hv'
        rw [← (List.cons.inj he).1] at hx
        exact hx (List.mem_of_getElem? (List.mem_zipIdx_iff_getElem?.mp hy))

end Orderings

/-! ### Exchanging and exchanging back -/

section InPlace

variable {α β ι : Type} {row row' : List α} {k i : ℕ}

/-- Exchanges two entries, does what is to be done, and exchanges them back. -/
def exchanging (act : List α × List β → Outcome (List α × List β)) (k : ℕ)
    (state : List α × List β) (i : ℕ) : Outcome (List α × List β) := do
  let (row, out) ← act (← exchange state.1 k i, state.2)
  return (← exchange row k i, out)

/-- Lists the orderings of the last `m` entries of a row, which stand from place `k` on: each of
them in turn is exchanged to the front. What was listed before comes first. -/
def listInPlace : (m k : ℕ) → List α × List (List α) → Outcome (List α × List (List α))
  | 0, _, (row, out) => return (row, out ++ [row])
  | m + 1, k, state => (List.range' k (m + 1)).foldlM (exchanging (listInPlace m (k + 1)) k) state

lemma exchanging_eq {act : List α × List β → Outcome (List α × List β)} {out found : List β}
    (hthere : exchange row k i = .ok row') (hback : exchange row' k i = .ok row)
    (hact : act (row', out) = .ok (row', out ++ found)) :
    exchanging act k (row, out) i = .ok (row, out ++ found) := by
  simp only [exchanging, hthere, hact, hback, bind, Except.bind, pure, Except.pure]

/-- A loop whose passes leave the row as it is only adds what its passes list. -/
lemma foldlM_listing {f : List α × List β → ι → Outcome (List α × List β)} {found : ι → List β}
    {l : List ι} (h : ∀ a ∈ l, ∀ out, f (row, out) a = .ok (row, out ++ found a)) (out : List β) :
    l.foldlM f (row, out) = .ok (row, out ++ l.flatMap found) := by
  induction l generalizing out with
  | nil => simp [pure, Except.pure]
  | cons a l ih =>
    rw [List.foldlM_cons, h a List.mem_cons_self, List.flatMap_cons, ← List.append_assoc]
    exact ih (fun b hb => h b (List.mem_cons_of_mem _ hb)) (out ++ found a)

lemma exchange_self (front rest : List α) (x : α) :
    exchange (front ++ x :: rest) front.length front.length = .ok (front ++ x :: rest) := by
  rw [exchange_eq (entry_append front rest x) (entry_append front rest x)]
  simp

lemma exchanging_place {act : List α × List β → Outcome (List α × List β)} {front xs : List α}
    {out found : List β} {x y : α} (hy : xs[i]? = some y)
    (hact : act (front ++ y :: xs.set i x, out) = .ok (front ++ y :: xs.set i x, out ++ found)) :
    exchanging act front.length (front ++ x :: xs, out) (front.length + 1 + i) =
      .ok (front ++ x :: xs, out ++ found) := by
  obtain ⟨u, v, rfl, hset, rfl⟩ := exists_append_of_place hy x
  have hplace : ∀ z : α, (front ++ z :: u).length = front.length + 1 + u.length := by
    intro z
    simp only [List.length_append, List.length_cons]
    omega
  rw [hset] at hact
  exact exchanging_eq (hplace x ▸ exchange_append front u v x y)
    (hplace y ▸ exchange_append front u v y x) hact

/-- **The row is restored**, and the orderings of its last entries have been listed. -/
lemma listInPlace_eq (front rest : List α) (out : List (List α)) :
    listInPlace rest.length front.length (front ++ rest, out) =
      .ok (front ++ rest, out ++ (orderings rest.length rest).map (front ++ ·)) := by
  induction hm : rest.length generalizing front rest out with
  | zero =>
    rw [List.length_eq_zero_iff.mp hm]
    simp [listInPlace, orderings, pure, Except.pure]
  | succ m ih =>
    cases rest with
    | nil => simp at hm
    | cons x xs =>
      have hlen : xs.length = m := by simpa using hm
      -- with another value at the next place, the others are listed behind it
      have hbehind : ∀ (y : α) (ys : List α) (out : List (List α)), ys.length = m →
          listInPlace m (front.length + 1) (front ++ y :: ys, out) =
            .ok (front ++ y :: ys, out ++ ((orderings m ys).map (y :: ·)).map (front ++ ·)) := by
        intro y ys out hys
        simpa [Function.comp_def] using ih (front ++ [y]) ys out hys
      have hfirst := exchanging_eq (exchange_self front xs x) (exchange_self front xs x)
        (hbehind x xs out hlen)
      have hplaces : List.range' (front.length + 1) m =
          xs.zipIdx.map (((front.length + 1) + ·) ∘ Prod.snd) := by
        rw [← List.map_map, List.zipIdx_map_snd, List.map_add_range', hlen]
      have hpass : ∀ p ∈ xs.zipIdx, ∀ out,
          exchanging (listInPlace m (front.length + 1)) front.length (front ++ x :: xs, out)
            ((front.length + 1) + p.2) = .ok (front ++ x :: xs,
              out ++ ((orderings m (xs.set p.2 x)).map (p.1 :: ·)).map (front ++ ·)) := by
        intro p hp out
        refine exchanging_place (List.mem_zipIdx_iff_getElem?.mp hp) (hbehind _ _ _ ?_)
        rwa [List.length_set]
      rw [listInPlace, List.range'_succ, List.foldlM_cons, hfirst, hplaces]
      refine (List.foldlM_map ..).trans ((foldlM_listing hpass _).trans ?_)
      simp [orderings, List.map_flatMap]

end InPlace

/-! ### Permutations that leave the other positions alone -/

variable {n : ℕ} {p : Relabeling} {g : List ℕ}

lemma valid_singleton (hd : g.Nodup) (hg : ∀ i ∈ g, i < n) : Groups.Valid n [g] :=
  ⟨by simpa using hd, by simpa using hg⟩

/-- Read off the positions themselves, a relabeling is what it lists. -/
lemma apply_range (hp : ∀ i ∈ p, i < n) : p.apply (identity n) = p := by
  refine (List.filterMap_congr fun i hi => ?_).trans List.filterMap_some
  simp [identity, hp i hi]

/-- A permutation that fixes the other positions only reorders these. -/
lemma IsPerm.apply_perm (hp : IsPerm n p) (hfix : ∀ i < n, i ∉ g → p[i]? = some i) (hd : g.Nodup)
    (hg : ∀ i ∈ g, i < n) : (apply g p).Perm g := by
  have hinj : ∀ {i j x : ℕ}, p[i]? = some x → p[j]? = some x → i = j := fun hi hj =>
    Option.some.inj ((hp.getElem?_inverse hi).symm.trans (hp.getElem?_inverse hj))
  have hnodup : (apply g p).Nodup := hd.filterMap fun i j x hi hj => hinj hi hj
  have hsub : apply g p ⊆ g := by
    intro x hx
    obtain ⟨i, hi, hix⟩ := List.mem_filterMap.mp hx
    by_contra hxg
    have hxn : x < n := hp.mem_iff.mp (List.mem_of_getElem? hix)
    exact hxg (hinj hix (hfix x hxn hxg) ▸ hi)
  refine (hnodup.subperm hsub).perm_of_length_le ?_
  rw [Relabeling.length_apply (by rwa [hp.length])]

lemma product_iff_rearranged (hd : g.Nodup) (hg : ∀ i ∈ g, i < n) :
    Product n (transpositions n [g]) p ↔ Rearranged [g] (identity n) p := by
  have hvalid := valid_singleton hd hg
  have hlen : (identity n).length = n := by simp [identity]
  have hself : ∀ {q}, Product n (transpositions n [g]) q → q.apply (identity n) = q := fun hq =>
    apply_range fun i hi => (hq.isPerm (isPerm_transpositions hvalid)).mem_iff.mp hi
  constructor
  · intro hp
    rw [← hself hp]
    exact rearranged_of_product hvalid hlen hp
  · intro h
    obtain ⟨q, hq, rfl⟩ := reaches_of_rearranged hvalid hlen h
    rwa [hself hq]

lemma rearranged_iff_fixes (hd : g.Nodup) (hg : ∀ i ∈ g, i < n) :
    Rearranged [g] (identity n) p ↔ IsPerm n p ∧ ∀ i < n, i ∉ g → p[i]? = some i := by
  have hrange : ∀ i < n, (identity n)[i]? = some i := fun i hi => by simp [identity, hi]
  constructor
  · intro h
    refine ⟨((product_iff_rearranged hd hg).mpr h).isPerm
      (isPerm_transpositions (valid_singleton hd hg)), fun i hi hig => ?_⟩
    rw [h.outside i (by simpa using hig), hrange i hi]
  · rintro ⟨hp, hfix⟩
    refine ⟨by simp [identity, hp.length], fun i hi => ?_, fun g' hg' => ?_⟩
    · by_cases hin : i < n
      · rw [hfix i hin (by simpa using hi), hrange i hin]
      · rw [List.getElem?_eq_none (by rw [hp.length]; omega),
          List.getElem?_eq_none (by simp [identity]; omega)]
    · rw [List.mem_singleton.mp hg', apply_range hg]
      exact hp.apply_perm hfix hd hg

lemma mem_permuting_iff (hd : g.Nodup) (hg : ∀ i ∈ g, i < n) :
    p ∈ permuting n g ↔ Rearranged [g] (identity n) p := by
  have hin : ∀ i ∈ g, i < (identity n).length := by simpa [identity] using hg
  simp only [permuting, List.mem_map, mem_orderings rfl]
  constructor
  · rintro ⟨values, hv, he⟩
    obtain ⟨hlen, hout, happ⟩ := (eq_place_iff hd hin hv.length_eq).mp he.symm
    refine ⟨hlen, fun i hi => hout i (by simpa using hi), fun g' hg' => ?_⟩
    rwa [List.mem_singleton.mp hg', happ, apply_range hg]
  · intro h
    have hv := h.inside g (List.mem_singleton_self g)
    rw [apply_range hg] at hv
    have hout : ∀ i, i ∉ g → p[i]? = (identity n)[i]? := fun i hi => h.outside i (by simpa using hi)
    exact ⟨apply g p, hv, ((eq_place_iff hd hin hv.length_eq).mpr ⟨h.length, hout, rfl⟩).symm⟩

lemma nodup_permuting (hd : g.Nodup) (hg : ∀ i ∈ g, i < n) : (permuting n g).Nodup := by
  have hin : ∀ i ∈ g, i < (identity n).length := by simpa [identity] using hg
  refine List.Nodup.map_on (fun values hv values' hv' he => ?_) (nodup_orderings hd)
  rw [mem_orderings rfl] at hv hv'
  calc values = apply g (place (identity n) g values) := (apply_place hd hin hv.length_eq).symm
    _ = apply g (place (identity n) g values') := congrArg (apply g) he
    _ = values' := apply_place hd hin hv'.length_eq

/-- **The two listings agree.** Exchanging in place restores the positions and lists their
orderings; put in their places these are the permutations that fix every other position, each listed
once, and they are the group that the exchanges of neighbors generate. -/
theorem permuting_lists_group (hd : g.Nodup) (hg : ∀ i ∈ g, i < n) :
    (listInPlace g.length 0 (g, [])).map (Prod.map id (List.map (placing n g))) =
        .ok (g, permuting n g) ∧
      (permuting n g).Nodup ∧
      (∀ p, p ∈ permuting n g ↔ IsPerm n p ∧ ∀ i < n, i ∉ g → p[i]? = some i) ∧
      ∀ p, p ∈ permuting n g ↔ p ∈ (closure n (transpositions n [g])).toList := by
  refine ⟨?_, nodup_permuting hd hg, fun p => ?_, fun p => ?_⟩
  · have hlist : listInPlace g.length 0 (g, []) = .ok (g, orderings g.length g) := by
      simpa using listInPlace_eq [] g []
    rw [hlist]
    rfl
  · rw [mem_permuting_iff hd hg, rearranged_iff_fixes hd hg]
  · rw [mem_permuting_iff hd hg, mem_closure_iff (isPerm_transpositions (valid_singleton hd hg)),
      product_iff_rearranged hd hg]

/-- Of five positions, three change places in any order of theirs. -/
theorem permuting_lists_group_scattered :
    [4, 0, 2].Nodup ∧ (∀ i ∈ [4, 0, 2], i < 5) ∧
      (permuting 5 [4, 0, 2]).Nodup ∧ [2, 1, 4, 3, 0] ∈ permuting 5 [4, 0, 2] ∧
      [2, 1, 4, 3, 0] ∈ (closure 5 (transpositions 5 [[4, 0, 2]])).toList := by
  obtain ⟨-, hnodup, hfixes, hgroup⟩ :=
    permuting_lists_group (n := 5) (g := [4, 0, 2]) (by decide) (by decide)
  have hmem : [2, 1, 4, 3, 0] ∈ permuting 5 [4, 0, 2] :=
    (hfixes _).mpr ⟨by unfold IsPerm; decide, by decide⟩
  exact ⟨by decide, by decide, hnodup, hmem, (hgroup _).mp hmem⟩

end RuleTable.Relabeling
