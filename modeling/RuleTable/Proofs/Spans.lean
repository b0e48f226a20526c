import RuleTable.Proofs.Presentations

/-!
What composed types consist of.

The relabelings of a composition are the products of the relabelings of its parts, however the parts
are given. For parts that permute groups of positions freely this is not how the composition is
made: overlapping groups are united first. Two positions that some product exchanges can be called
equivalent, and uniting groups of equivalent positions only makes larger groups of such.
-/

namespace RuleTable

namespace Relabeling

variable {n : ℕ} {gens gens' : List Relabeling} {p q g : Relabeling} {a b c : ℕ}

lemma Product.of_mem (hg : IsPerm n g) (h : g ∈ gens) : Product n gens g := by
  have := Product.snoc (Product.one (n := n)) h
  rwa [identity_andThen fun i hi => hg.mem_iff.mp hi] at this

/-- Products of products are products. -/
lemma Product.trans (hgens : ∀ g ∈ gens, IsPerm n g) (h : ∀ g ∈ gens', Product n gens g)
    (hp : Product n gens' p) : Product n gens p := by
  induction hp with
  | one => exact .one
  | snoc _ hg ih => exact ih.andThen hgens (h _ hg)

/-! ### Positions that can be exchanged -/

lemma transposition_eq_map (ha : a < n) (hb : b < n) :
    transposition n a b = (List.range n).map (Equiv.swap a b) := by
  rw [← andThen_identity (length_transposition n a b)]
  exact transposition_andThen ha hb (by simp [identity])

/-- Some product of the generators exchanges the two positions and leaves the others alone. -/
def Exchangeable (n : ℕ) (gens : List Relabeling) (a b : ℕ) : Prop :=
  a < n ∧ b < n ∧ Product n gens (transposition n a b)

lemma exchangeable_self (ha : a < n) : Exchangeable n gens a a := by
  refine ⟨ha, ha, ?_⟩
  have : transposition n a a = identity n := by
    simp [transposition_eq_map ha ha, identity]
  exact this ▸ .one

lemma Exchangeable.symm (h : Exchangeable n gens a b) : Exchangeable n gens b a := by
  obtain ⟨ha, hb, h⟩ := h
  refine ⟨hb, ha, ?_⟩
  rwa [transposition_eq_map hb ha, Equiv.swap_comm, ← transposition_eq_map ha hb]

lemma Exchangeable.trans (hgens : ∀ g ∈ gens, IsPerm n g) (h : Exchangeable n gens a b)
    (h' : Exchangeable n gens b c) : Exchangeable n gens a c := by
  rcases eq_or_ne a b with rfl | hab
  · exact h'
  rcases eq_or_ne b c with rfl | hbc
  · exact h
  rcases eq_or_ne a c with rfl | hac
  · exact exchangeable_self h.1
  obtain ⟨ha, hb, h⟩ := h
  obtain ⟨-, hc, h'⟩ := h'
  refine ⟨ha, hc, ?_⟩
  -- `(a c) = (a b) (b c) (a b)`
  have hinner := (isPerm_transposition hb hc).andThen (isPerm_transposition ha hb)
  have hconj : (transposition n a b).andThen ((transposition n b c).andThen (transposition n a b)) =
      transposition n a c := by
    rw [transposition_andThen ha hb fun i hi => hinner.mem_iff.mp hi,
      transposition_andThen hb hc fun i hi => (isPerm_transposition ha hb).mem_iff.mp hi,
      transposition_eq_map ha hb, transposition_eq_map ha hc, List.map_map, List.map_map]
    have hswap := Equiv.swap_mul_swap_mul_swap hbc.symm hac.symm
    rw [Equiv.swap_comm b a, Equiv.swap_comm c b] at hswap
    exact List.map_congr_left fun i _ => congrArg (fun e : Equiv.Perm ℕ => e i) hswap
  exact hconj ▸ h.andThen hgens (h'.andThen hgens h)

/-- Neighbors in a group change places, hence any two positions in it. -/
lemma exchangeable_of_mem {g : List ℕ} (hlt : ∀ i ∈ g, i < n) (hgens : ∀ g ∈ gens, IsPerm n g)
    (hsub : exchanges n g ⊆ gens) : ∀ a ∈ g, ∀ b ∈ g, Exchangeable n gens a b := by
  induction g with
  | nil => simp
  | cons x g ih =>
    have hrest := ih (fun i hi => hlt i (List.mem_cons_of_mem _ hi))
      (List.Subset.trans (exchanges_cons_subset x g) hsub)
    have hx : ∀ b ∈ g, Exchangeable n gens x b := by
      cases g with
      | nil => simp
      | cons y g =>
        intro b hb
        have hxlt := hlt x List.mem_cons_self
        have hylt := hlt y (List.mem_cons_of_mem _ List.mem_cons_self)
        have hmem : transposition n x y ∈ gens := hsub (by simp [exchanges])
        have hxy : Exchangeable n gens x y :=
          ⟨hxlt, hylt, .of_mem (isPerm_transposition hxlt hylt) hmem⟩
        exact hxy.trans hgens (hrest y List.mem_cons_self b hb)
    intro a ha b hb
    rcases List.mem_cons.mp ha with ha | ha <;> rcases List.mem_cons.mp hb with hb | hb
    · rw [ha, hb]
      exact exchangeable_self (hlt x List.mem_cons_self)
    · exact ha ▸ hx b hb
    · exact hb ▸ (hx a ha).symm
    · exact hrest a ha b hb

end Relabeling

/-! ### Uniting groups -/

namespace Groups

open Relabeling

variable {P : List ℕ → Prop} {R : ℕ → ℕ → Prop} {groups groups' : List (List ℕ)}
  {g o merged : List ℕ} {n : ℕ}

/-- Groups keep the property when they are united because they overlap, and when they are sorted. -/
structure Kept (P : List ℕ → Prop) : Prop where
  unite : ∀ {o m : List ℕ}, P o → P m → overlap o m = true → P (unite o m)
  sort : ∀ {g : List ℕ}, P g → P g.mergeSort

/-- What absorbing keeps, group by group: those set apart and the united one have the property, and
every group so far lies within one of them. -/
structure Absorbed (P : List ℕ → Prop) (seen apart : List (List ℕ)) (merged : List ℕ) : Prop where
  kept : ∀ o ∈ apart, P o
  united : P merged
  within : ∀ o ∈ seen, o ∈ apart ∨ o ⊆ merged

lemma Absorbed.step {seen apart : List (List ℕ)} (hP : Kept P) (h : Absorbed P seen apart merged)
    (ho : P o) :
    if overlap o merged then Absorbed P (o :: seen) apart (Groups.unite o merged)
    else Absorbed P (o :: seen) (apart ++ [o]) merged := by
  split
  · next hover =>
    refine ⟨h.kept, hP.unite ho h.united hover, fun u hu => ?_⟩
    rcases List.mem_cons.mp hu with rfl | hu
    · exact .inr fun i hi => mem_unite.mpr (.inl hi)
    · exact (h.within u hu).imp_right fun hsub i hi => mem_unite.mpr (.inr (hsub hi))
  · refine ⟨fun u hu => ?_, h.united, fun u hu => ?_⟩
    · rcases List.mem_append.mp hu with hu | hu
      · exact h.kept u hu
      · exact List.mem_singleton.mp hu ▸ ho
    · rcases List.mem_cons.mp hu with rfl | hu
      · exact .inl (List.mem_append_right _ (List.mem_singleton_self _))
      · exact (h.within u hu).imp_left (List.mem_append_left _)

lemma Absorbed.foldl (hP : Kept P) {rest : List (List ℕ)} (hrest : ∀ o ∈ rest, P o)
    {seen : List (List ℕ)} {acc : List (List ℕ) × List ℕ} (h : Absorbed P seen acc.1 acc.2) :
    let out := rest.foldl (fun (apart, merged) o =>
      if overlap o merged then (apart, Groups.unite o merged) else (apart ++ [o], merged)) acc
    ∃ seen', (∀ o ∈ seen ++ rest, o ∈ seen') ∧ Absorbed P seen' out.1 out.2 := by
  induction rest generalizing seen acc with
  | nil => exact ⟨seen, by simp, h⟩
  | cons o rest ih =>
    have hstep := h.step hP (hrest o List.mem_cons_self)
    obtain ⟨seen', hall, hout⟩ := ih (fun u hu => hrest u (List.mem_cons_of_mem _ hu))
      (show Absorbed P (o :: seen)
        (if overlap o acc.2 then (acc.1, Groups.unite o acc.2) else (acc.1 ++ [o], acc.2)).1
        (if overlap o acc.2 then (acc.1, Groups.unite o acc.2) else (acc.1 ++ [o], acc.2)).2 by
          split_ifs at hstep ⊢ <;> exact hstep)
    refine ⟨seen', fun u hu => hall u ?_, hout⟩
    simp only [List.mem_append, List.mem_cons] at hu ⊢
    tauto

lemma absorb_spec (hP : Kept P) (hgroups : ∀ o ∈ groups, P o) (hg : P g) :
    (∀ m ∈ absorb groups g, P m) ∧ ∀ o ∈ g :: groups, ∃ m ∈ absorb groups g, o ⊆ m := by
  have hstart : Absorbed P [g] [] g :=
    ⟨by simp, hg, fun o ho => .inr (List.mem_singleton.mp ho ▸ List.Subset.refl _)⟩
  obtain ⟨seen, hall, hout⟩ := @Absorbed.foldl P hP groups hgroups [g] ([], g) hstart
  unfold absorb
  refine ⟨fun m hm => ?_, fun o ho => ?_⟩
  · rcases List.mem_append.mp hm with hm | hm
    · exact hout.kept m hm
    · exact List.mem_singleton.mp hm ▸ hout.united
  · rcases hout.within o (hall o ho) with ho | ho
    · exact ⟨o, List.mem_append_left _ ho, List.Subset.refl o⟩
    · exact ⟨_, List.mem_append_right _ (List.mem_singleton_self _), ho⟩

/-- **Uniting** groups keeps the property, and each group lies within a united one. -/
lemma merge_spec (hP : Kept P) (hgroups : ∀ g ∈ groups, P g) :
    (∀ m ∈ merge groups, P m) ∧ ∀ g ∈ groups, ∃ m ∈ merge groups, g ⊆ m := by
  have hfold : ∀ groups acc : List (List ℕ), (∀ g ∈ groups, P g) → (∀ g ∈ acc, P g) →
      (∀ m ∈ groups.foldl absorb acc, P m) ∧
        ∀ g ∈ acc ++ groups, ∃ m ∈ groups.foldl absorb acc, g ⊆ m := by
    intro groups
    induction groups with
    | nil => exact fun acc _ hacc => ⟨hacc, fun g hg => ⟨g, by simpa using hg, List.Subset.refl g⟩⟩
    | cons g groups ih =>
      intro acc hgroups hacc
      obtain ⟨hkept, hwithin⟩ := absorb_spec hP hacc (hgroups g List.mem_cons_self)
      obtain ⟨hout, hcover⟩ := ih (absorb acc g)
        (fun u hu => hgroups u (List.mem_cons_of_mem _ hu)) hkept
      refine ⟨hout, fun u hu => ?_⟩
      rw [List.mem_append, List.mem_cons] at hu
      by_cases hrest : u ∈ groups
      · exact hcover u (List.mem_append_right _ hrest)
      · obtain ⟨m, hm, hum⟩ := hwithin u (by simp only [List.mem_cons]; tauto)
        obtain ⟨m', hm', hmm'⟩ := hcover m (List.mem_append_left _ hm)
        exact ⟨m', hm', List.Subset.trans hum hmm'⟩
  have hmem : ∀ m, m ∈ merge groups ↔ ∃ g ∈ groups.foldl absorb [], g.mergeSort = m := by
    intro m
    rw [merge, (List.mergeSort_perm _ _).mem_iff, List.mem_map]
  obtain ⟨hkept, hcover⟩ := hfold groups [] hgroups (by simp)
  refine ⟨fun m hm => ?_, fun g hg => ?_⟩
  · obtain ⟨g, hg, rfl⟩ := (hmem m).mp hm
    exact hP.sort (hkept g hg)
  · obtain ⟨m, hm, hgm⟩ := hcover g hg
    exact ⟨m.mergeSort, (hmem _).mpr ⟨m, hm, rfl⟩,
      fun i hi => (List.mergeSort_perm _ _).mem_iff.mpr (hgm hi)⟩

/-- Any two positions of the group stand in the relation. -/
def Joined (R : ℕ → ℕ → Prop) (g : List ℕ) : Prop := ∀ a ∈ g, ∀ b ∈ g, R a b

lemma kept_joined [Std.Symm R] [IsTrans ℕ R] : Kept (Joined R) where
  unite {o m} ho hm hover := by
    obtain ⟨i, hio, him⟩ := overlap_iff.mp hover
    have hall : ∀ a ∈ unite o m, R a i := by
      intro a ha
      rcases mem_unite.mp ha with ha | ha
      · exact ho a ha i hio
      · exact hm a ha i him
    exact fun a ha b hb => trans_of R (hall a ha) (symm_of R (hall b hb))
  sort {g} hg := by
    have hsame : ∀ i, i ∈ g.mergeSort ↔ i ∈ g := fun i => (List.mergeSort_perm _ _).mem_iff
    exact fun a ha b hb => hg a ((hsame a).mp ha) b ((hsame b).mp hb)

lemma isPerm_transpositions_of_lt (hlt : ∀ g ∈ groups, ∀ i ∈ g, i < n) :
    ∀ q ∈ transpositions n groups, IsPerm n q := by
  intro q hq
  obtain ⟨g, hg, hq⟩ := List.mem_flatMap.mp hq
  exact isPerm_exchanges (hlt g hg) q hq

/-- Positions that can be exchanged within groups can be exchanged within larger ones. -/
lemma product_of_within (hlt : ∀ g ∈ groups', ∀ i ∈ g, i < n)
    (hwithin : ∀ g ∈ groups, ∃ m ∈ groups', g ⊆ m) {p : Relabeling}
    (hp : Product n (transpositions n groups) p) : Product n (transpositions n groups') p := by
  have hgens := isPerm_transpositions_of_lt hlt
  refine hp.trans hgens fun q hq => ?_
  obtain ⟨g, hg, hq⟩ := List.mem_flatMap.mp hq
  obtain ⟨a, ha, b, hb, rfl⟩ := mem_exchanges hq
  obtain ⟨m, hm, hgm⟩ := hwithin g hg
  exact (exchangeable_of_mem (hlt m hm) hgens (fun q hq => List.mem_flatMap.mpr ⟨m, hm, hq⟩)
    a (hgm ha) b (hgm hb)).2.2

/-- United groups are freely permuted by the same products as the groups themselves. -/
lemma product_merge_iff (h : ∀ g ∈ groups, g.Nodup ∧ ∀ i ∈ g, i < n) {p : Relabeling} :
    Product n (transpositions n (merge groups)) p ↔ Product n (transpositions n groups) p := by
  have hlt : ∀ g ∈ groups, ∀ i ∈ g, i < n := fun g hg => (h g hg).2
  have hgens := isPerm_transpositions_of_lt hlt
  have : Std.Symm (Exchangeable n (transpositions n groups)) := ⟨fun _ _ => .symm⟩
  have : IsTrans ℕ (Exchangeable n (transpositions n groups)) := ⟨fun _ _ _ => .trans hgens⟩
  obtain ⟨hjoined, hcover⟩ :=
    merge_spec (kept_joined (R := Exchangeable n (transpositions n groups)))
    fun g hg => exchangeable_of_mem (hlt g hg) hgens fun q hq => List.mem_flatMap.mpr ⟨g, hg, hq⟩
  constructor
  · refine Product.trans hgens fun q hq => ?_
    obtain ⟨m, hm, hq⟩ := List.mem_flatMap.mp hq
    obtain ⟨a, ha, b, hb, rfl⟩ := mem_exchanges hq
    exact (hjoined m hm a ha b hb).2.2
  · exact product_of_within
      (fun m hm i hi => (valid_merge h).lt i (List.mem_flatten.mpr ⟨m, hm, hi⟩)) hcover

end Groups

/-! ### Compositions -/

namespace Symmetry

open Relabeling

variable {t : Symmetry} {p : Relabeling}

lemma mem_relabelings_of_generator (h : t.Valid) (hp : p ∈ t.generators) : p ∈ t.relabelings := by
  have hperm := isPerm_generators h p hp
  rw [relabelings_eq]
  unfold generators at hp
  unfold Valid at h
  cases hpres : t.presentation with
  | generated gens =>
    rw [hpres] at h hp
    exact (mem_closure_iff h).mpr (.of_mem hperm hp)
  | listed members =>
    rw [hpres] at hp
    rwa [relabelings_eq, hpres] at hp
  | free groups =>
    rw [hpres] at h hp
    exact (mem_closure_iff (isPerm_transpositions h)).mpr (.of_mem hperm hp)

lemma product_of_mem_relabelings (h : t.Valid) (hp : p ∈ t.relabelings) :
    Product t.neighborhood.size t.generators p := by
  have hperm := isPerm_of_mem h hp
  have hmem := hp
  rw [relabelings_eq] at hp
  unfold Valid at h
  unfold generators
  cases hpres : t.presentation with
  | generated gens =>
    rw [hpres] at h hp
    exact (mem_closure_iff h).mp hp
  | listed members => exact .of_mem hperm hmem
  | free groups =>
    rw [hpres] at h hp
    exact (mem_closure_iff (isPerm_transpositions h)).mp hp

/-- The group around a group is the group itself. -/
lemma groupAround_eq (h : t.presentation.Closed) : t.groupAround = t.presentation := by
  unfold groupAround groups? generators
  cases hpres : t.presentation with
  | generated gens => rfl
  | listed members =>
    rw [hpres] at h
    exact h.elim
  | free groups => rfl

end Symmetry

namespace Registry

open Relabeling

variable {nb : Neighborhood} {ts : List Symmetry} {p : Relabeling}

lemma isPerm_of_mem_generators (h : ∀ t ∈ ts, t.Valid ∧ t.neighborhood = nb) :
    ∀ q ∈ ts.flatMap (·.generators), IsPerm nb.size q := by
  intro q hq
  obtain ⟨t, ht, hq⟩ := List.mem_flatMap.mp hq
  exact (h t ht).2 ▸ Symmetry.isPerm_generators (h t ht).1 q hq

lemma generators_of_groups {groups : List (List (List ℕ))} (hnb : ∀ t ∈ ts, t.neighborhood = nb)
    (h : ts.mapM (·.groups?) = some groups) :
    ts.flatMap (·.generators) = transpositions nb.size groups.flatten := by
  induction ts generalizing groups with
  | nil =>
    cases h
    rfl
  | cons t ts ih =>
    rw [List.mapM_cons] at h
    obtain ⟨gs, hgs, h⟩ := Option.bind_eq_some_iff.mp h
    obtain ⟨rest, hrest, h⟩ := Option.bind_eq_some_iff.mp h
    cases h
    have ht : t.generators = transpositions nb.size gs := by
      rw [Symmetry.generators, Symmetry.presentation_of_groups? hgs, hnb t List.mem_cons_self]
    rw [List.flatMap_cons, ih (fun t ht => hnb t (List.mem_cons_of_mem _ ht)) hrest, ht,
      List.flatten_cons, transpositions_eq, transpositions_eq, transpositions_eq,
      List.flatMap_append]

/-- However the parts are given, a composition has the products of their generators. -/
lemma mem_composition_iff_generators (h : ∀ t ∈ ts, t.Valid ∧ t.neighborhood = nb) :
    p ∈ ((composition ts).members nb.size).toList ↔
      Product nb.size (ts.flatMap (·.generators)) p := by
  have hvalid := valid_composition h
  unfold composition at hvalid ⊢
  split at hvalid
  · next groups hgroups =>
    have hgs : ∀ g ∈ groups.flatten, g.Nodup ∧ ∀ i ∈ g, i < nb.size :=
      groups_of_valid h hgroups
    rw [generators_of_groups (fun t ht => (h t ht).2) hgroups, ← Groups.product_merge_iff hgs]
    exact mem_closure_iff (isPerm_transpositions hvalid)
  · exact mem_closure_iff (isPerm_of_mem_generators h)

/-- **A composition** has the products of the relabelings of its parts. -/
lemma mem_composition_iff (h : ∀ t ∈ ts, t.Valid ∧ t.neighborhood = nb) :
    p ∈ ((composition ts).members nb.size).toList ↔
      Product nb.size (ts.flatMap (·.relabelings)) p := by
  rw [mem_composition_iff_generators h]
  constructor
  · refine Product.mono fun q hq => ?_
    obtain ⟨t, ht, hq⟩ := List.mem_flatMap.mp hq
    exact List.mem_flatMap.mpr ⟨t, ht, Symmetry.mem_relabelings_of_generator (h t ht).1 hq⟩
  · refine Product.trans (isPerm_of_mem_generators h) fun q hq => ?_
    obtain ⟨t, ht, hq⟩ := List.mem_flatMap.mp hq
    have := Symmetry.product_of_mem_relabelings (h t ht).1 hq
    rw [(h t ht).2] at this
    exact this.mono fun q hq => List.mem_flatMap.mpr ⟨t, ht, hq⟩

end Registry

end RuleTable
