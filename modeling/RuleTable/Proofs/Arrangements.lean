import RuleTable.Proofs.Relabelings
import RuleTable.Symmetry.Orbit

/-!
Freely permuted groups of positions.

The orbit of a row under all permutations of some disjoint groups is worked out without them: every
group is filled with its values in every order. Neighbors changing places generate the permutations,
and they take a filling to any other, because any order of a list comes from any other by exchanging
neighbors.
-/

namespace RuleTable

open Relabeling

variable {n : ℕ} {row row' : List ℕ} {g values : List ℕ}

/-! ### Filling positions -/

lemma place_cons (row : List ℕ) (i v : ℕ) (g values : List ℕ) :
    place row (i :: g) (v :: values) = place (row.set i v) g values := rfl

lemma length_place (row g values : List ℕ) : (place row g values).length = row.length := by
  induction g generalizing row values with
  | nil => rfl
  | cons i g ih =>
    cases values with
    | nil => rfl
    | cons v values => rw [place_cons, ih, List.length_set]

lemma getElem?_place_of_notMem {i : ℕ} (hi : i ∉ g) : (place row g values)[i]? = row[i]? := by
  induction g generalizing row values with
  | nil => rfl
  | cons j g ih =>
    cases values with
    | nil => rfl
    | cons v values =>
      rw [List.mem_cons, not_or] at hi
      rw [place_cons, ih hi.2, List.getElem?_set_ne (Ne.symm hi.1)]

/-- What was put at the positions stands there. -/
lemma apply_place (hd : g.Nodup) (hg : ∀ i ∈ g, i < row.length) (hv : values.length = g.length) :
    apply g (place row g values) = values := by
  induction g generalizing row values with
  | nil => exact (List.length_eq_zero_iff.mp hv).symm
  | cons i g ih =>
    cases values with
    | nil => simp at hv
    | cons v values =>
      obtain ⟨hi, hd⟩ := List.nodup_cons.mp hd
      have hlt : i < row.length := hg i List.mem_cons_self
      have hread : (place (row.set i v) g values)[i]? = some v := by
        rw [getElem?_place_of_notMem hi, List.getElem?_set_self hlt]
      rw [place_cons, apply, List.filterMap_cons_some hread]
      exact congrArg (v :: ·) (ih hd
        (fun j hj => by rw [List.length_set]; exact hg j (List.mem_cons_of_mem _ hj))
        (by simpa using hv))

lemma apply_congr (h : ∀ i ∈ g, row[i]? = row'[i]?) : apply g row = apply g row' :=
  List.filterMap_congr h

lemma getElem?_eq_of_apply_eq (hg : ∀ i ∈ g, i < row.length) (hg' : ∀ i ∈ g, i < row'.length)
    (h : apply g row = apply g row') : ∀ i ∈ g, row[i]? = row'[i]? := by
  intro i hi
  obtain ⟨k, hk, rfl⟩ := List.mem_iff_getElem.mp hi
  have he : (apply g row)[k]? = (apply g row')[k]? := by rw [h]
  rwa [getElem?_apply hg, getElem?_apply hg', List.getElem?_eq_getElem hk] at he

lemma eq_place_iff (hd : g.Nodup) (hg : ∀ i ∈ g, i < row.length) (hv : values.length = g.length) :
    row' = place row g values ↔
      row'.length = row.length ∧ (∀ i, i ∉ g → row'[i]? = row[i]?) ∧ apply g row' = values := by
  constructor
  · rintro rfl
    exact ⟨length_place _ _ _, fun i hi => getElem?_place_of_notMem hi, apply_place hd hg hv⟩
  · rintro ⟨hlen, hout, happ⟩
    refine List.ext_getElem? fun i => ?_
    by_cases hi : i ∈ g
    · exact getElem?_eq_of_apply_eq (fun i hi => hlen ▸ hg i hi)
        (fun i hi => by rw [length_place]; exact hg i hi)
        (happ.trans (apply_place hd hg hv).symm) i hi
    · rw [hout i hi, getElem?_place_of_notMem hi]

/-! ### Orderings -/

lemma mem_dropRepeats {α : Type} [DecidableEq α] {x : α} : ∀ {l : List α}, x ∈ dropRepeats l ↔ x ∈ l
  | [] => by simp [dropRepeats]
  | [y] => by simp [dropRepeats]
  | y :: z :: l => by
    rw [dropRepeats]
    split
    · next h => rw [mem_dropRepeats, h]; simp
    · simp only [List.mem_cons, mem_dropRepeats]

/-- The arrangements of a list are the lists with the same elements. -/
lemma mem_arrangements {α : Type} [DecidableEq α] {k : ℕ} {values l : List α} (h : l.length = k) :
    values ∈ arrangements k l ↔ values.Perm l := by
  induction k generalizing l values with
  | zero =>
    rw [List.length_eq_zero_iff.mp h]
    simp [arrangements]
  | succ k ih =>
    simp only [arrangements, List.mem_flatMap, mem_dropRepeats, List.mem_map]
    constructor
    · rintro ⟨x, hx, rest, hrest, rfl⟩
      have hlen : (l.erase x).length = k := by rw [List.length_erase_of_mem hx, h]; rfl
      exact (((ih hlen).mp hrest).cons x).trans (List.perm_cons_erase hx).symm
    · intro hp
      cases values with
      | nil => rw [List.nil_perm] at hp; simp [hp] at h
      | cons x rest =>
        have hx : x ∈ l := hp.mem_iff.mp List.mem_cons_self
        have hlen : (l.erase x).length = k := by rw [List.length_erase_of_mem hx, h]; rfl
        exact ⟨x, hx, rest, (ih hlen).mpr ((hp.trans (List.perm_cons_erase hx)).cons_inv), rfl⟩

section Order

variable {α : Type} [LinearOrder α] {k : ℕ} {l : List α}

lemma pairwise_dropRepeats (h : l.Pairwise (· ≤ ·)) : (dropRepeats l).Pairwise (· < ·) := by
  fun_induction dropRepeats l with
  | case1 => exact .nil
  | case2 x => exact List.pairwise_singleton _ _
  | case3 x rest ih => exact ih h.of_cons
  | case4 x y rest hne ih =>
    obtain ⟨hx, hrest⟩ := List.pairwise_cons.mp h
    refine List.pairwise_cons.mpr ⟨fun z hz => ?_, ih hrest⟩
    have hxy : x < y := lt_of_le_of_ne (hx y List.mem_cons_self) hne
    rcases List.mem_cons.mp (mem_dropRepeats.mp hz) with rfl | hz
    · exact hxy
    · exact hxy.trans_le ((List.pairwise_cons.mp hrest).1 z hz)

/-- Orderings of a sorted list come in lexicographic order, and each comes once. -/
lemma pairwise_arrangements (h : l.Pairwise (· ≤ ·)) : (arrangements k l).Pairwise (· < ·) := by
  induction k generalizing l with
  | zero => exact List.pairwise_singleton _ _
  | succ k ih =>
    rw [arrangements, List.pairwise_flatMap]
    refine ⟨fun x _ => ?_, (pairwise_dropRepeats h).imp fun hxy values hx values' hy => ?_⟩
    · refine List.pairwise_map.mpr ((ih (h.sublist List.erase_sublist)).imp fun hlt => ?_)
      exact List.cons_lt_cons_iff.mpr (.inr ⟨rfl, hlt⟩)
    · obtain ⟨_, -, rfl⟩ := List.mem_map.mp hx
      obtain ⟨_, -, rfl⟩ := List.mem_map.mp hy
      exact List.cons_lt_cons_iff.mpr (.inl hxy)

end Order

/-! ### All fillings -/

structure Groups.Valid (n : ℕ) (groups : List (List ℕ)) : Prop where
  nodup : groups.flatten.Nodup
  lt : ∀ i ∈ groups.flatten, i < n

lemma Groups.Valid.cons {groups : List (List ℕ)} (h : Groups.Valid n (g :: groups)) :
    g.Nodup ∧ (∀ i ∈ g, i < n) ∧ (∀ i ∈ g, i ∉ groups.flatten) ∧ Groups.Valid n groups := by
  obtain ⟨hd, hlt⟩ := h
  rw [List.flatten_cons, List.nodup_append] at hd
  simp only [List.flatten_cons, List.mem_append] at hlt
  exact ⟨hd.1, fun i hi => hlt i (.inl hi), fun i hi hi' => hd.2.2 i hi i hi' rfl,
    hd.2.1, fun i hi => hlt i (.inr hi)⟩

/-- The row differs from another only in the order within each group. -/
structure Rearranged (groups : List (List ℕ)) (row row' : List ℕ) : Prop where
  length : row'.length = row.length
  outside : ∀ i, i ∉ groups.flatten → row'[i]? = row[i]?
  inside : ∀ g ∈ groups, (apply g row').Perm (apply g row)

/-- The rows that fill the groups with the given values, in any order. -/
lemma mem_freeImages_fold {groups contents : List (List ℕ)} {rows : List (List ℕ)}
    (hg : Groups.Valid n groups)
    (hc : List.Forall₂ (fun g c => c.length = g.length) groups contents)
    (hrows : ∀ r ∈ rows, r.length = n) :
    row ∈ (groups.zip contents).foldl (fun rows (positions, values) =>
        rows.flatMap fun row =>
          (arrangements values.length values).map (place row positions)) rows ↔
      ∃ r ∈ rows, row.length = n ∧ (∀ i, i ∉ groups.flatten → row[i]? = r[i]?) ∧
        List.Forall₂ (fun g c => (apply g row).Perm c) groups contents := by
  induction hc generalizing rows with
  | nil =>
    simp only [List.zip_nil_left, List.foldl_nil, List.flatten_nil, List.not_mem_nil,
      not_false_eq_true, forall_const, List.forall₂_nil_left_iff, and_true]
    constructor
    · exact fun h => ⟨row, h, hrows row h, fun _ => rfl⟩
    · rintro ⟨r, hr, -, he⟩
      rwa [List.ext_getElem? he]
  | @cons g c groups contents hgc hc ih =>
    obtain ⟨hd, hlt, hdis, hgroups⟩ := hg.cons
    have hstep : ∀ r' ∈ rows.flatMap fun r => (arrangements c.length c).map (place r g),
        r'.length = n := by
      simp only [List.mem_flatMap, List.mem_map]
      rintro _ ⟨r, hr, values, -, rfl⟩
      rw [length_place, hrows r hr]
    rw [List.zip_cons_cons, List.foldl_cons, ih hgroups hstep]
    simp only [List.mem_flatMap, List.mem_map, mem_arrangements (rfl : c.length = c.length),
      List.flatten_cons, List.mem_append, not_or, List.forall₂_cons]
    constructor
    · rintro ⟨_, ⟨r, hr, values, hp, rfl⟩, hlen, hout, hin⟩
      have hrg : ∀ i ∈ g, i < r.length := fun i hi => hrows r hr ▸ hlt i hi
      refine ⟨r, hr, hlen, fun i hi => ?_, ?_, hin⟩
      · rw [hout i hi.2, getElem?_place_of_notMem hi.1]
      · rw [apply_congr fun i hi => hout i (hdis i hi),
          apply_place hd hrg (hp.length_eq.trans hgc)]
        exact hp
    · rintro ⟨r, hr, hlen, hout, hp, hin⟩
      have hrg : ∀ i ∈ g, i < r.length := fun i hi => hrows r hr ▸ hlt i hi
      have hv : (apply g row).length = g.length := hp.length_eq.trans hgc
      refine ⟨place r g (apply g row), ⟨r, hr, _, hp, rfl⟩, hlen, fun i hi => ?_, hin⟩
      by_cases hig : i ∈ g
      · exact getElem?_eq_of_apply_eq (fun i hi => hlen ▸ hlt i hi)
          (fun i hi => by rw [length_place]; exact hrg i hi) (apply_place hd hrg hv).symm i hig
      · rw [hout i ⟨hig, hi⟩, getElem?_place_of_notMem hig]

/-- **Filling is rearranging.** Filling the groups of a row with their own values, in any order,
gives the rows that differ from it only in the order within each group. -/
lemma mem_freeImages {groups : List (List ℕ)} (hg : Groups.Valid n groups) (hlen : row.length = n) :
    row' ∈ Symmetry.freeImages groups (groups.map fun g => (apply g row).mergeSort) row ↔
      Rearranged groups row row' := by
  have hc : List.Forall₂ (fun g c => c.length = g.length) groups
      (groups.map fun g => (apply g row).mergeSort) := by
    rw [List.forall₂_map_right_iff, List.forall₂_same]
    intro g hg'
    rw [List.length_mergeSort]
    exact length_apply fun i hi => hlen ▸ hg.lt i (List.mem_flatten.mpr ⟨g, hg', hi⟩)
  rw [Symmetry.freeImages, mem_freeImages_fold hg hc (by simpa using hlen)]
  simp only [List.mem_singleton, exists_eq_left, List.forall₂_map_right_iff, List.forall₂_same,
    (List.mergeSort_perm _ _).congr_right]
  exact ⟨fun ⟨h1, h2, h3⟩ => ⟨h1.trans hlen.symm, h2, h3⟩, fun h => ⟨h.length.trans hlen, h.2, h.3⟩⟩

/-! ### Neighbors changing places -/

/-- Some product of the generators takes one row to the other. -/
def Reaches (n : ℕ) (gens : List Relabeling) (row row' : List ℕ) : Prop :=
  ∃ p, Product n gens p ∧ p.apply row = row'

lemma getD_transposition {a b i : ℕ} (ha : a < n) (hb : b < n) (hi : i < n) :
    (transposition n a b).getD i 0 = Equiv.swap a b i := by
  rw [transposition, identity, List.getD_eq_getElem?_getD, List.getElem?_set, List.getElem?_set]
  simp only [List.length_set, List.length_range, List.getElem?_range hi, hb, if_true, ha]
  rcases eq_or_ne i b with rfl | hib
  · simp
  · rcases eq_or_ne i a with rfl | hia
    · simp [Ne.symm hib]
    · simp [Ne.symm hib, Ne.symm hia, Equiv.swap_apply_of_ne_of_ne hia hib]

lemma length_transposition (n a b : ℕ) : (transposition n a b).length = n := by
  simp [transposition, identity]

lemma transposition_andThen {a b : ℕ} (ha : a < n) (hb : b < n) {g : List ℕ} (hg : ∀ i ∈ g, i < n) :
    (transposition n a b).andThen g = g.map (Equiv.swap a b) :=
  List.map_congr_left fun i hi => getD_transposition ha hb (hg i hi)

lemma isPerm_transposition {a b : ℕ} (ha : a < n) (hb : b < n) :
    IsPerm n (transposition n a b) := by
  have he : transposition n a b = (List.range n).map (Equiv.swap a b) := by
    rw [← andThen_identity (length_transposition n a b)]
    exact transposition_andThen ha hb (by simp [identity])
  have hlt : ∀ i < n, Equiv.swap a b i < n := by
    intro i hi
    rw [Equiv.swap_apply_def]
    split_ifs <;> assumption
  rw [IsPerm, he]
  refine (List.perm_ext_iff_of_nodup (List.nodup_range.map (Equiv.swap a b).injective)
    List.nodup_range).mpr fun i => ?_
  simp only [List.mem_map, List.mem_range]
  constructor
  · rintro ⟨j, hj, rfl⟩
    exact hlt j hj
  · exact fun hi => ⟨_, hlt i hi, Equiv.swap_apply_self a b i⟩

lemma getElem?_exchange {a b : ℕ} (ha : a < n) (hb : b < n) (hlen : row.length = n) (i : ℕ) :
    ((transposition n a b).apply row)[i]? = row[Equiv.swap a b i]? := by
  have hperm := isPerm_transposition ha hb
  rw [getElem?_apply (hperm.lt_length hlen)]
  by_cases hi : i < n
  · have hget := getD_transposition ha hb hi
    rw [List.getD_eq_getElem?_getD, List.getElem?_eq_getElem (by rwa [hperm.length]),
      Option.getD_some] at hget
    rw [List.getElem?_eq_getElem (by rwa [hperm.length]), hget]
    rfl
  · rw [List.getElem?_eq_none (by rw [hperm.length]; omega),
      Equiv.swap_apply_of_ne_of_ne (by omega) (by omega), List.getElem?_eq_none (by omega)]
    rfl

def exchanges (n : ℕ) (g : List ℕ) : List Relabeling :=
  (g.zip g.tail).map fun (a, b) => transposition n a b

lemma transpositions_eq (n : ℕ) (groups : List (List ℕ)) :
    transpositions n groups = groups.flatMap (exchanges n) := rfl

lemma mem_exchanges {t : Relabeling} (h : t ∈ exchanges n g) :
    ∃ a ∈ g, ∃ b ∈ g, t = transposition n a b := by
  obtain ⟨⟨a, b⟩, hab, rfl⟩ := List.mem_map.mp h
  have := List.of_mem_zip hab
  exact ⟨a, this.1, b, List.mem_of_mem_tail this.2, rfl⟩

lemma isPerm_transpositions {groups : List (List ℕ)} (hg : Groups.Valid n groups) :
    ∀ t ∈ transpositions n groups, IsPerm n t := by
  intro t ht
  obtain ⟨g, hmem, ht⟩ := List.mem_flatMap.mp ht
  obtain ⟨a, ha, b, hb, rfl⟩ := mem_exchanges ht
  have hlt : ∀ i ∈ g, i < n := fun i hi => hg.lt i (List.mem_flatten.mpr ⟨g, hmem, hi⟩)
  exact isPerm_transposition (hlt a ha) (hlt b hb)

lemma Rearranged.refl (groups : List (List ℕ)) (row : List ℕ) : Rearranged groups row row :=
  ⟨rfl, fun _ _ => rfl, fun _ _ => .refl _⟩

lemma Rearranged.trans {groups : List (List ℕ)} {row₁ row₂ row₃ : List ℕ}
    (h : Rearranged groups row₁ row₂) (h' : Rearranged groups row₂ row₃) :
    Rearranged groups row₁ row₃ :=
  ⟨h'.length.trans h.length, fun i hi => (h'.outside i hi).trans (h.outside i hi),
    fun g hg => (h'.inside g hg).trans (h.inside g hg)⟩

/-- A swap within a group permutes the group and leaves the others alone. -/
lemma map_swap_perm {groups : List (List ℕ)} (hd : groups.flatten.Nodup) {g g' : List ℕ}
    (hg : g ∈ groups) (hg' : g' ∈ groups) {a b : ℕ} (ha : a ∈ g) (hb : b ∈ g) :
    (g'.map (Equiv.swap a b)).Perm g' := by
  obtain ⟨hnd, hdis⟩ := List.nodup_flatten.mp hd
  by_cases he : g' = g
  · subst he
    refine (List.perm_ext_iff_of_nodup ((hnd g' hg).map (Equiv.swap a b).injective)
      (hnd g' hg)).mpr fun i => ?_
    have hmem : ∀ i ∈ g', Equiv.swap a b i ∈ g' := by
      intro i hi
      rw [Equiv.swap_apply_def]
      split_ifs <;> assumption
    rw [List.mem_map]
    constructor
    · rintro ⟨j, hj, rfl⟩
      exact hmem j hj
    · exact fun hi => ⟨_, hmem i hi, Equiv.swap_apply_self a b i⟩
  · have : Std.Symm (List.Disjoint : List ℕ → List ℕ → Prop) := ⟨fun _ _ h => h.symm⟩
    have hapart : List.Disjoint g g' := hdis.forall hg hg' (Ne.symm he)
    have hfix : ∀ i ∈ g', Equiv.swap a b i = id i := by
      intro i hi
      refine Equiv.swap_apply_of_ne_of_ne ?_ ?_
      · rintro rfl; exact hapart ha hi
      · rintro rfl; exact hapart hb hi
    rw [List.map_congr_left hfix, List.map_id]

lemma rearranged_exchange {groups : List (List ℕ)} (hg : Groups.Valid n groups)
    (hlen : row.length = n) {t : Relabeling} (ht : t ∈ transpositions n groups) :
    Rearranged groups row (t.apply row) := by
  have hperm := isPerm_transpositions hg t ht
  obtain ⟨g, hmem, ht⟩ := List.mem_flatMap.mp ht
  obtain ⟨a, ha, b, hb, rfl⟩ := mem_exchanges ht
  have hlt : ∀ g' ∈ groups, ∀ i ∈ g', i < n :=
    fun g' hg' i hi => hg.lt i (List.mem_flatten.mpr ⟨g', hg', hi⟩)
  refine ⟨(hperm.length_apply hlen).trans hlen.symm, fun i hi => ?_, fun g' hg' => ?_⟩
  · have hia : i ≠ a := by rintro rfl; exact hi (List.mem_flatten.mpr ⟨g, hmem, ha⟩)
    have hib : i ≠ b := by rintro rfl; exact hi (List.mem_flatten.mpr ⟨g, hmem, hb⟩)
    rw [getElem?_exchange (hlt g hmem a ha) (hlt g hmem b hb) hlen,
      Equiv.swap_apply_of_ne_of_ne hia hib]
  · rw [← apply_andThen (hperm.lt_length hlen) (by rw [hperm.length]; exact hlt g' hg'),
      transposition_andThen (hlt g hmem a ha) (hlt g hmem b hb) (hlt g' hg')]
    exact (map_swap_perm hg.nodup hmem hg' ha hb).filterMap _

lemma rearranged_of_product {groups : List (List ℕ)} (hg : Groups.Valid n groups)
    (hlen : row.length = n) {p : Relabeling} (hp : Product n (transpositions n groups) p) :
    Rearranged groups row (p.apply row) := by
  induction hp with
  | one => rw [apply_identity hlen]; exact .refl _ _
  | snoc hp ht ih =>
    have hpp := hp.isPerm (isPerm_transpositions hg)
    rw [hpp.apply_andThen (isPerm_transpositions hg _ ht) hlen]
    exact ih.trans (rearranged_exchange hg (hpp.length_apply hlen) ht)

/-! ### Any order comes from any other -/

lemma Reaches.refl {gens : List Relabeling} (hlen : row.length = n) : Reaches n gens row row :=
  ⟨_, .one, apply_identity hlen⟩

lemma Reaches.trans {gens : List Relabeling} (hgens : ∀ g ∈ gens, IsPerm n g)
    {row₁ row₂ row₃ : List ℕ} (hlen : row₁.length = n) (h : Reaches n gens row₁ row₂)
    (h' : Reaches n gens row₂ row₃) : Reaches n gens row₁ row₃ := by
  obtain ⟨p, hp, rfl⟩ := h
  obtain ⟨q, hq, rfl⟩ := h'
  exact ⟨_, hp.andThen hgens hq, (hp.isPerm hgens).apply_andThen (hq.isPerm hgens) hlen⟩

lemma Reaches.mono {gens gens' : List Relabeling} (h : gens ⊆ gens')
    (hr : Reaches n gens row row') :
    Reaches n gens' row row' := by
  obtain ⟨p, hp, he⟩ := hr
  exact ⟨p, hp.mono h, he⟩

lemma isPerm_exchanges (hg : ∀ i ∈ g, i < n) : ∀ t ∈ exchanges n g, IsPerm n t := by
  intro t ht
  obtain ⟨a, ha, b, hb, rfl⟩ := mem_exchanges ht
  exact isPerm_transposition (hg a ha) (hg b hb)

lemma exchanges_cons_subset (a : ℕ) (g : List ℕ) : exchanges n g ⊆ exchanges n (a :: g) := by
  cases g with
  | nil => simp [exchanges]
  | cons b g => simp [exchanges]

lemma exchange_place {a b v w : ℕ} (hd : (a :: b :: g).Nodup) (hg : ∀ i ∈ a :: b :: g, i < n)
    (hlen : row.length = n) (hv : (w :: v :: values).length = (a :: b :: g).length) :
    (transposition n a b).apply (place row (a :: b :: g) (w :: v :: values)) =
      place row (a :: b :: g) (v :: w :: values) := by
  have ha : a < n := hg a List.mem_cons_self
  have hb : b < n := hg b (List.mem_cons_of_mem _ List.mem_cons_self)
  have hperm := isPerm_transposition ha hb
  have hrow : ∀ i ∈ a :: b :: g, i < row.length := hlen ▸ hg
  have hplen := (length_place row (a :: b :: g) (w :: v :: values)).trans hlen
  have hread := apply_place hd hrow hv
  obtain ⟨hab, hbg⟩ := List.nodup_cons.mp hd
  obtain ⟨hbg, -⟩ := List.nodup_cons.mp hbg
  rw [List.mem_cons, not_or] at hab
  rw [eq_place_iff hd hrow (by simpa using hv)]
  refine ⟨(hperm.length_apply hplen).trans hlen.symm, fun i hi => ?_, ?_⟩
  · simp only [List.mem_cons, not_or] at hi
    rw [getElem?_exchange ha hb hplen, Equiv.swap_apply_of_ne_of_ne hi.1 hi.2.1,
      getElem?_place_of_notMem (by simp [hi])]
  · have hfix : g.map (Equiv.swap a b) = g := by
      refine (List.map_congr_left fun i hi => ?_).trans (List.map_id g)
      refine Equiv.swap_apply_of_ne_of_ne ?_ ?_
      · rintro rfl; exact hab.2 hi
      · rintro rfl; exact hbg hi
    rw [← apply_andThen (hperm.lt_length hplen) (by rwa [hperm.length]),
      transposition_andThen ha hb hg, List.map_cons, List.map_cons, hfix, Equiv.swap_apply_left,
      Equiv.swap_apply_right, apply_cons (by rwa [hplen]), apply_cons (by rwa [hplen])]
    rw [apply_cons (by rwa [hplen]), apply_cons (by rwa [hplen])] at hread
    simp only [List.cons.injEq] at hread ⊢
    exact ⟨hread.2.1, hread.1, hread.2.2⟩

/-- One order of values comes from another by exchanging neighbors. The induction is on how the
orders are permutations of each other. -/
lemma place_reaches {values values' : List ℕ} (hp : values.Perm values') (hd : g.Nodup)
    (hg : ∀ i ∈ g, i < n) (hlen : row.length = n) (hv : values.length = g.length) :
    Reaches n (exchanges n g) (place row g values) (place row g values') := by
  induction hp generalizing g row with
  | nil => exact .refl ((length_place _ _ _).trans hlen)
  | @cons v values values' hp ih =>
    cases g with
    | nil => simp at hv
    | cons i g =>
      rw [place_cons, place_cons]
      exact (ih (List.nodup_cons.mp hd).2 (fun j hj => hg j (List.mem_cons_of_mem _ hj))
        (by rw [List.length_set, hlen]) (by simpa using hv)).mono (exchanges_cons_subset i g)
  | swap v w values =>
    match g with
    | [] | [_] => simp at hv
    | a :: b :: g =>
      have ha : a < n := hg a List.mem_cons_self
      have hb : b < n := hg b (List.mem_cons_of_mem _ List.mem_cons_self)
      have hmem : transposition n a b ∈ exchanges n (a :: b :: g) := by simp [exchanges]
      have hperm := isPerm_transposition ha hb
      refine ⟨_, .snoc .one hmem, ?_⟩
      rw [identity_andThen fun i hi => hperm.mem_iff.mp hi]
      exact exchange_place hd hg hlen hv
  | trans hp hp' ih ih' =>
    exact (ih hd hg hlen hv).trans (isPerm_exchanges hg) ((length_place _ _ _).trans hlen)
      (ih' hd hg hlen (hp.length_eq ▸ hv))

/-- The groups are put in order one after the other. -/
lemma reaches_of_rearranged {groups : List (List ℕ)} (hg : Groups.Valid n groups)
    (hlen : row.length = n) (h : Rearranged groups row row') :
    Reaches n (transpositions n groups) row row' := by
  induction groups generalizing row with
  | nil =>
    obtain rfl : row = row' := (List.ext_getElem? fun i => h.outside i (by simp)).symm
    exact .refl hlen
  | cons g groups ih =>
    obtain ⟨hd, hlt, hdis, hgroups⟩ := hg.cons
    have hrow : ∀ i ∈ g, i < row.length := hlen ▸ hlt
    have hrow' : ∀ i ∈ g, i < row'.length := h.length ▸ hrow
    have hself : place row g (apply g row) = row :=
      ((eq_place_iff hd hrow (length_apply hrow)).mpr ⟨rfl, fun _ _ => rfl, rfl⟩).symm
    have hfirst : Reaches n (exchanges n g) (place row g (apply g row))
        (place row g (apply g row')) :=
      place_reaches (h.inside g List.mem_cons_self).symm hd hlt hlen (length_apply hrow)
    rw [hself] at hfirst
    have hplace := apply_place hd hrow (length_apply hrow')
    have hrest : Rearranged groups (place row g (apply g row')) row' := by
      refine ⟨h.length.trans (length_place _ _ _).symm, fun i hi => ?_, fun g' hg' => ?_⟩
      · by_cases hig : i ∈ g
        · exact getElem?_eq_of_apply_eq hrow' (fun j hj => by rw [length_place]; exact hrow j hj)
            hplace.symm i hig
        · rw [h.outside i (by simp [hig, List.mem_flatten.not.mp hi]), getElem?_place_of_notMem hig]
      · have hout : ∀ i ∈ g', (place row g (apply g row'))[i]? = row[i]? := fun i hi =>
          getElem?_place_of_notMem fun hig => hdis i hig (List.mem_flatten.mpr ⟨g', hg', hi⟩)
        rw [apply_congr hout]
        exact h.inside g' (List.mem_cons_of_mem _ hg')
    have hsub : exchanges n g ⊆ transpositions n (g :: groups) := by
      rw [transpositions_eq, List.flatMap_cons]
      exact List.subset_append_left _ _
    have hsub' : transpositions n groups ⊆ transpositions n (g :: groups) := by
      rw [transpositions_eq, transpositions_eq, List.flatMap_cons]
      exact List.subset_append_right _ _
    exact (hfirst.mono hsub).trans (isPerm_transpositions hg) hlen
      ((ih hgroups ((length_place _ _ _).trans hlen) hrest).mono hsub')

/-- **Free orbits.** The fillings of the groups are what the generated group makes of the row. -/
lemma mem_freeImages_iff {groups : List (List ℕ)} (hg : Groups.Valid n groups)
    (hlen : row.length = n) :
    row' ∈ Symmetry.freeImages groups (groups.map fun g => (apply g row).mergeSort) row ↔
      ∃ p ∈ (closure n (transpositions n groups)).toList, p.apply row = row' := by
  rw [mem_freeImages hg hlen]
  simp only [mem_closure_iff (isPerm_transpositions hg)]
  constructor
  · exact reaches_of_rearranged hg hlen
  · rintro ⟨p, hp, rfl⟩
    exact rearranged_of_product hg hlen hp

/-- The fillings do not depend on what stood in the groups before. -/
lemma freeImages_congr {groups contents : List (List ℕ)} (hg : Groups.Valid n groups)
    (hc : List.Forall₂ (fun g c => c.length = g.length) groups contents) (hlen : row.length = n)
    (hlen' : row'.length = n) (h : ∀ i, i ∉ groups.flatten → row[i]? = row'[i]?) :
    Symmetry.freeImages groups contents row = Symmetry.freeImages groups contents row' := by
  suffices hfold : ∀ rows rows' : List (List ℕ),
      List.Forall₂ (fun r r' => r.length = n ∧ r'.length = n ∧
        ∀ i, i ∉ groups.flatten → r[i]? = r'[i]?) rows rows' →
      (groups.zip contents).foldl (fun rows (positions, values) => rows.flatMap fun row =>
        (arrangements values.length values).map (place row positions)) rows =
      (groups.zip contents).foldl (fun rows (positions, values) => rows.flatMap fun row =>
        (arrangements values.length values).map (place row positions)) rows' from
    hfold [row] [row'] (.cons ⟨hlen, hlen', h⟩ .nil)
  clear h
  induction hc with
  | nil =>
    intro rows rows' hrows
    exact List.forall₂_eq_eq_eq ▸ hrows.imp fun r r' hr =>
      List.ext_getElem? fun i => hr.2.2 i (by simp)
  | @cons g c groups contents hgc _ ih =>
    intro rows rows' hrows
    obtain ⟨hd, hlt, hdis, hgroups⟩ := hg.cons
    rw [List.zip_cons_cons, List.foldl_cons, List.foldl_cons]
    refine ih hgroups _ _ (List.rel_flatMap hrows fun r r' ⟨hr, hr', hout⟩ => ?_)
    rw [List.forall₂_map_left_iff, List.forall₂_map_right_iff, List.forall₂_same]
    intro values hv
    have hlen : values.length = g.length :=
      ((mem_arrangements rfl).mp hv).length_eq.trans hgc
    refine ⟨(length_place _ _ _).trans hr, (length_place _ _ _).trans hr', fun i hi => ?_⟩
    by_cases hig : i ∈ g
    · refine getElem?_eq_of_apply_eq (g := g) ?_ ?_ ?_ i hig
      · intro j hj; rw [length_place, hr]; exact hlt j hj
      · intro j hj; rw [length_place, hr']; exact hlt j hj
      · rw [apply_place hd (hr ▸ hlt) hlen, apply_place hd (hr' ▸ hlt) hlen]
    · rw [getElem?_place_of_notMem hig, getElem?_place_of_notMem hig]
      exact hout i (by simp only [List.flatten_cons, List.mem_append]; tauto)

end RuleTable
