import RuleTable.Proofs.Spans

/-!
Uniting overlapping groups of positions.

A group may meet several of those united before, and grows while it does. Positions of one united
group are linked by overlapping groups, because linked positions stay so when overlapping groups are
united; and linked positions come into one united group, because each group lies within a united one
and those are disjoint. Exchanges of neighbors in overlapping groups make up all exchanges of linked
positions, so uniting groups changes nothing about what they generate.
-/

namespace RuleTable.Groups

open Relabeling

variable {groups : List (List ℕ)} {n i j k : ℕ} {g h m : List ℕ}

/-! ### Chains of overlapping groups -/

def Meets (groups : List (List ℕ)) (g h : List ℕ) : Prop := h ∈ groups ∧ overlap g h = true

/-- A chain of groups, each overlapping the next, leads from a group with the one position to a
group with the other. -/
def Linked (groups : List (List ℕ)) (i j : ℕ) : Prop :=
  ∃ g ∈ groups, ∃ h ∈ groups, i ∈ g ∧ j ∈ h ∧ Relation.ReflTransGen (Meets groups) g h

lemma linked_of_mem (hg : g ∈ groups) (hi : i ∈ g) (hj : j ∈ g) : Linked groups i j :=
  ⟨g, hg, g, hg, hi, hj, .refl⟩

lemma overlap_symm (hover : overlap g h = true) : overlap h g = true := by
  obtain ⟨i, hig, hih⟩ := overlap_iff.mp hover
  exact overlap_iff.mpr ⟨i, hih, hig⟩

lemma chain_reverse (hg : g ∈ groups) (hchain : Relation.ReflTransGen (Meets groups) g h) :
    h ∈ groups ∧ Relation.ReflTransGen (Meets groups) h g := by
  induction hchain with
  | refl => exact ⟨hg, .refl⟩
  | tail _ hmeets ih => exact ⟨hmeets.1, .head ⟨ih.1, overlap_symm hmeets.2⟩ ih.2⟩

lemma Linked.symm (hlinked : Linked groups i j) : Linked groups j i := by
  obtain ⟨g, hg, h, hh, hi, hj, hchain⟩ := hlinked
  exact ⟨h, hh, g, hg, hj, hi, (chain_reverse hg hchain).2⟩

lemma Linked.trans (hij : Linked groups i j) (hjk : Linked groups j k) : Linked groups i k := by
  obtain ⟨g, hg, h, -, hi, hjh, hchain⟩ := hij
  obtain ⟨h', hh', m, hm, hjh', hk, hchain'⟩ := hjk
  -- the two chains meet in the groups that have `j`
  have hmeets : Meets groups h h' := ⟨hh', overlap_iff.mpr ⟨j, hjh, hjh'⟩⟩
  exact ⟨g, hg, m, hm, hi, hk, (hchain.tail hmeets).trans hchain'⟩

instance : Std.Symm (Linked groups) := ⟨fun _ _ => .symm⟩

instance : IsTrans ℕ (Linked groups) := ⟨fun _ _ _ => .trans⟩

/-! ### United groups -/

lemma kept_ne_nil : Kept (· ≠ []) where
  unite {o m} ho _ _ := by
    obtain ⟨i, hi⟩ := List.exists_mem_of_ne_nil o ho
    exact List.ne_nil_of_mem (mem_unite.mpr (.inl hi))
  sort {g} hg := by
    obtain ⟨i, hi⟩ := List.exists_mem_of_ne_nil g hg
    exact List.ne_nil_of_mem ((List.mergeSort_perm _ _).mem_iff.mpr hi)

lemma Valid.disjoint (hv : Valid n groups) : groups.Pairwise List.Disjoint :=
  (List.nodup_flatten.mp hv.nodup).2

lemma Valid.eq_of_mem (hv : Valid n groups) (hg : g ∈ groups) (hh : h ∈ groups) (hig : i ∈ g)
    (hih : i ∈ h) : g = h := by
  have : Std.Symm (List.Disjoint : List ℕ → List ℕ → Prop) := ⟨fun _ _ => List.Disjoint.symm⟩
  by_contra hne
  exact hv.disjoint.forall hg hh hne hig hih

/-- The positions of a united group are linked, and each group lies within a united one. -/
lemma merge_joined (groups : List (List ℕ)) :
    (∀ m ∈ merge groups, Joined (Linked groups) m) ∧ ∀ g ∈ groups, ∃ m ∈ merge groups, g ⊆ m :=
  merge_spec kept_joined fun _ hg _ hi _ hj => linked_of_mem hg hi hj

lemma mem_merge_iff : (∃ m ∈ merge groups, i ∈ m) ↔ ∃ g ∈ groups, i ∈ g := by
  obtain ⟨hjoined, hcover⟩ := merge_joined groups
  constructor
  · rintro ⟨m, hm, hi⟩
    obtain ⟨g, hg, -, -, hig, -⟩ := hjoined m hm i hi i hi
    exact ⟨g, hg, hig⟩
  · rintro ⟨g, hg, hi⟩
    obtain ⟨m, hm, hgm⟩ := hcover g hg
    exact ⟨m, hm, hgm hi⟩

/-- **Links.** Two positions are in one united group exactly if overlapping groups link them. -/
lemma linked_iff (hv : Valid n (merge groups)) :
    (∃ m ∈ merge groups, i ∈ m ∧ j ∈ m) ↔ Linked groups i j := by
  obtain ⟨hjoined, hcover⟩ := merge_joined groups
  constructor
  · rintro ⟨m, hm, hi, hj⟩
    exact hjoined m hm i hi j hj
  · rintro ⟨g, hg, h, -, hi, hj, hchain⟩
    obtain ⟨m, hm, hgm⟩ := hcover g hg
    -- every group of the chain lies within `m`
    have hwithin : h ⊆ m := by
      clear hj
      induction hchain with
      | refl => exact hgm
      | @tail a b _ hmeets ih =>
        obtain ⟨x, hxa, hxb⟩ := overlap_iff.mp hmeets.2
        obtain ⟨m', hm', hbm'⟩ := hcover b hmeets.1
        rwa [hv.eq_of_mem hm hm' (ih hxa) (hbm' hxb)]
    exact ⟨m, hm, hgm hi, hwithin hj⟩

lemma pairwise_of_mem_merge (hv : Valid n (merge groups)) (hm : m ∈ merge groups) :
    m.Pairwise (· < ·) := by
  have hnodup : m.Nodup := (List.nodup_flatten.mp hv.nodup).1 m hm
  rw [merge, (List.mergeSort_perm _ _).mem_iff, List.mem_map] at hm
  obtain ⟨g, -, rfl⟩ := hm
  exact ((List.pairwise_mergeSort' (· ≤ ·) g).and hnodup).imp fun h => lt_of_le_of_ne h.1 h.2

/-- **Order.** Disjoint groups that are not empty have different first positions. -/
lemma pairwise_head_merge (hv : Valid n (merge groups)) (hne : ∀ m ∈ merge groups, m ≠ []) :
    (merge groups).Pairwise fun a b => a.headD 0 < b.headD 0 := by
  have hsorted : (merge groups).Pairwise fun a b => a.headD 0 ≤ b.headD 0 := by
    refine List.Pairwise.imp of_decide_eq_true (List.pairwise_mergeSort ?_ ?_ _)
    · intro a b c
      simpa using le_trans
    · intro a b
      simpa using le_total _ _
  refine (hsorted.and hv.disjoint).imp_of_mem fun {a b} ha hb hab => ?_
  obtain ⟨x, a, rfl⟩ := List.exists_cons_of_ne_nil (hne a ha)
  obtain ⟨y, b, rfl⟩ := List.exists_cons_of_ne_nil (hne b hb)
  refine lt_of_le_of_ne hab.1 fun hxy => hab.2 (List.mem_cons_self (a := x)) ?_
  have : x = y := hxy
  exact this ▸ List.mem_cons_self

/-! ### What groups generate -/

/-- Groups with the same positions generate the same, in whatever order these are listed. -/
lemma product_sorted_iff (hlt : ∀ g ∈ groups, ∀ i ∈ g, i < n) {p : Relabeling} :
    Product n (transpositions n (groups.map (·.mergeSort))) p ↔
      Product n (transpositions n groups) p := by
  have hsame : ∀ (g : List ℕ) i, i ∈ g.mergeSort ↔ i ∈ g :=
    fun _ _ => (List.mergeSort_perm _ _).mem_iff
  constructor
  · refine product_of_within hlt fun m hm => ?_
    obtain ⟨g, hg, rfl⟩ := List.mem_map.mp hm
    exact ⟨g, hg, fun i => (hsame g i).mp⟩
  · refine product_of_within (fun m hm i hi => ?_) fun g hg =>
      ⟨_, List.mem_map_of_mem hg, fun i => (hsame g i).mpr⟩
    obtain ⟨g, hg, rfl⟩ := List.mem_map.mp hm
    exact hlt g hg i ((hsame g i).mp hi)

/-- **Uniting groups keeps the group they generate.** Of groups that are not empty and name
positions below `n` without repeats come disjoint groups in increasing order, each increasing, with
the same positions. Two positions are in one of them exactly if overlapping groups link them, and
exchanges of neighbors generate the same relabelings as in the groups that were united, sorted. -/
theorem merge_keeps_generated_group
    (hgroups : ∀ g ∈ groups, g ≠ [] ∧ g.Nodup ∧ ∀ i ∈ g, i < n) :
    (merge groups).Pairwise List.Disjoint ∧
      (∀ m ∈ merge groups, m ≠ [] ∧ m.Pairwise (· < ·)) ∧
      ((merge groups).Pairwise fun a b => a.headD 0 < b.headD 0) ∧
      (∀ i, (∃ m ∈ merge groups, i ∈ m) ↔ ∃ g ∈ groups, i ∈ g) ∧
      (∀ i j, (∃ m ∈ merge groups, i ∈ m ∧ j ∈ m) ↔ Linked groups i j) ∧
      ∀ p, p ∈ (closure n (transpositions n (merge groups))).toList ↔
        p ∈ (closure n (transpositions n (groups.map (·.mergeSort)))).toList := by
  have hv : Valid n (merge groups) := valid_merge fun g hg => (hgroups g hg).2
  have hne := (merge_spec kept_ne_nil fun g hg => (hgroups g hg).1).1
  have hlt : ∀ g ∈ groups, ∀ i ∈ g, i < n := fun g hg => (hgroups g hg).2.2
  have hsorted : ∀ m ∈ groups.map (·.mergeSort), ∀ i ∈ m, i < n := by
    intro m hm i hi
    obtain ⟨g, hg, rfl⟩ := List.mem_map.mp hm
    exact hlt g hg i ((List.mergeSort_perm _ _).mem_iff.mp hi)
  refine ⟨hv.disjoint, fun m hm => ⟨hne m hm, pairwise_of_mem_merge hv hm⟩,
    pairwise_head_merge hv hne,
    fun i => mem_merge_iff, fun i j => linked_iff hv, fun p => ?_⟩
  rw [mem_closure_iff (isPerm_transpositions hv),
    mem_closure_iff (isPerm_transpositions_of_lt hsorted), product_sorted_iff hlt,
    product_merge_iff fun g hg => (hgroups g hg).2]

/-- The third group bridges the first two. -/
theorem merge_keeps_generated_group_bridged :
    (∀ g ∈ [[4, 5], [0, 1], [1, 4], [3]], g ≠ [] ∧ g.Nodup ∧ ∀ i ∈ g, i < 6) ∧
      merge [[4, 5], [0, 1], [1, 4], [3]] = [[0, 1, 4, 5], [3]] ∧
      Linked [[4, 5], [0, 1], [1, 4], [3]] 0 5 ∧ ¬ Linked [[4, 5], [0, 1], [1, 4], [3]] 3 5 := by
  have hgroups : ∀ g ∈ [[4, 5], [0, 1], [1, 4], [3]], g ≠ [] ∧ g.Nodup ∧ ∀ i ∈ g, i < 6 := by decide
  have hmerge : merge [[4, 5], [0, 1], [1, 4], [3]] = [[0, 1, 4, 5], [3]] := by cbv
  obtain ⟨-, -, -, -, hlinked, -⟩ := merge_keeps_generated_group hgroups
  rw [hmerge] at hlinked
  exact ⟨hgroups, hmerge, (hlinked 0 5).mp (by decide),
    fun h => absurd ((hlinked 3 5).mpr h) (by decide)⟩

end RuleTable.Groups
