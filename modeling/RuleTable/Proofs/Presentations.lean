import RuleTable.Proofs.Orbits
import RuleTable.Symmetry.Classes

/-!
The presentations that declarations give rise to make sense.

Rotations and reflections of a neighborhood are permutations of its positions. Groups of positions
are disjoint, and uniting those that overlap keeps them so.
-/

namespace RuleTable

open Relabeling

/-! ### Rotations, reflections and positions -/

namespace Neighborhood

variable {nb : Neighborhood}

instance (n : ℕ) (p : Relabeling) : Decidable (IsPerm n p) :=
  inferInstanceAs (Decidable (p.Perm (List.range n)))

lemma size_bounds (nb : Neighborhood) : 0 < nb.size ∧ nb.size ≤ 8 := by
  cases nb <;> decide

lemma isPerm_of_rotationsBy {ways : ℤ} {rotations : List Relabeling}
    (h : nb.rotationsBy ways = .ok rotations) : ∀ p ∈ rotations, IsPerm nb.size p := by
  have hsize := nb.size_bounds
  have hways : 0 < ways ∧ ways ≤ nb.size := by
    unfold rotationsBy at h
    split at h
    · cases h
    · next hcond =>
      push Not at hcond
      exact ⟨hcond.1, Int.le_of_dvd (by omega) (Int.dvd_of_emod_eq_zero hcond.2)⟩
  obtain ⟨k, rfl⟩ := Int.eq_ofNat_of_zero_le hways.1.le
  -- There are so few neighborhoods and parts of a turn that they can be gone through.
  have hall : ∀ k : Fin 9, ∀ p ∈ (nb.rotationsBy (k.val : ℤ)).toOption.getD [],
      IsPerm nb.size p := by
    cases nb <;> decide
  have := hall ⟨k, by omega⟩
  rw [h] at this
  exact this

lemma eighth?_lt {d : Direction} {x : ℕ} (h : d.eighth? = some x) : x < 8 := by
  have hall : ∀ d ∈ Direction.all, ∀ x ∈ d.eighth?, x < 8 := by decide
  exact hall d (by cases d <;> decide) x h

lemma isPerm_of_reflection? {axis : ℕ} (hlt : axis < 15) {a b : String} {p : Relabeling}
    (h : (match nb.reflection? axis with
      | some p => (.ok p : Except Failure Relabeling)
      | none => .error (.of .nowhere (.axisAsymmetric nb.name a b))) = .ok p) :
    IsPerm nb.size p := by
  have hall : ∀ axis : Fin 15, ∀ p ∈ nb.reflection? (axis.val : ℤ), IsPerm nb.size p := by
    cases nb <;> decide
  split at h
  · next q hq =>
    cases h
    exact hall ⟨axis, hlt⟩ p hq
  · cases h

lemma isPerm_of_reflectAcross {a b : String} {p : Relabeling} (h : nb.reflectAcross a b = .ok p) :
    IsPerm nb.size p := by
  unfold reflectAcross at h
  simp only at h
  split at h
  · next x y hx hy =>
    obtain ⟨d, -, hd⟩ := Option.bind_eq_some_iff.mp hx
    obtain ⟨d', -, hd'⟩ := Option.bind_eq_some_iff.mp hy
    have hdx := eighth?_lt hd
    have hdy := eighth?_lt hd'
    split at h
    · have h2x : 2 * x < 15 := by omega
      exact isPerm_of_reflection? h2x (by exact_mod_cast h)
    split at h
    · have hxy : x + y < 15 := by omega
      exact isPerm_of_reflection? hxy (by exact_mod_cast h)
    · cases h
  · cases h

lemma index?_lt {d : Direction} {i : ℕ} (h : nb.index? d = some i) : i < nb.size := by
  have hall : ∀ d ∈ Direction.all, ∀ i ∈ nb.index? d, i < nb.size := by
    cases nb <;> decide
  exact hall d (by cases d <;> decide) i h

lemma collectPositions_spec {labels : List String} {found positions : List ℕ}
    (h : nb.collectPositions labels found = .ok positions) (hnodup : found.Nodup)
    (hlt : ∀ i ∈ found, i < nb.size) : positions.Nodup ∧ ∀ i ∈ positions, i < nb.size := by
  induction labels generalizing found with
  | nil =>
    cases h
    exact ⟨hnodup, hlt⟩
  | cons l ls ih =>
    rw [collectPositions] at h
    split at h
    · cases h
    · next i hi =>
      split at h
      · cases h
      · next hnew =>
        obtain ⟨d, -, hd⟩ := Option.bind_eq_some_iff.mp hi
        have hnew : i ∉ found := by simpa using hnew
        refine ih h ?_ ?_
        · exact (List.perm_append_singleton i found).nodup_iff.mpr
            (List.nodup_cons.mpr ⟨hnew, hnodup⟩)
        · intro j hj
          rcases List.mem_append.mp hj with hj | hj
          · exact hlt j hj
          · rw [List.mem_singleton.mp hj]
            exact index?_lt hd

lemma positions_spec {labels : List String} {positions : List ℕ}
    (h : nb.positions labels = .ok positions) :
    positions.Pairwise (· < ·) ∧ ∀ i ∈ positions, i < nb.size := by
  unfold Neighborhood.positions at h
  split at h
  · cases h
    exact ⟨List.pairwise_lt_range, fun i hi => List.mem_range.mp hi⟩
  · cases hc : nb.collectPositions labels [] with
    | error f => simp [hc, Except.map] at h
    | ok found =>
      simp only [hc, Except.map, Except.ok.injEq] at h
      subst h
      obtain ⟨hnodup, hlt⟩ := collectPositions_spec hc List.nodup_nil (by simp)
      have hperm := List.mergeSort_perm found (· ≤ ·)
      have hsorted := List.pairwise_mergeSort' (· ≤ ·) found
      refine ⟨?_, fun i hi => hlt i (hperm.mem_iff.mp hi)⟩
      exact (hsorted.and (hperm.nodup_iff.mpr hnodup)).imp fun h => lt_of_le_of_ne h.1 h.2

end Neighborhood

/-! ### Groups of positions -/

namespace Groups

variable {n : ℕ} {groups : List (List ℕ)}

lemma mem_unite {a b : List ℕ} {i : ℕ} : i ∈ unite a b ↔ i ∈ a ∨ i ∈ b := by
  unfold unite
  induction b generalizing a with
  | nil => simp
  | cons y b ih =>
    rw [List.foldl_cons, ih]
    split
    · next hy =>
      have hy : y ∈ a := by simpa using hy
      simp only [List.mem_cons]
      exact ⟨fun h => h.imp_right .inr, fun h => h.elim .inl fun h =>
        h.elim (fun h => .inl (h ▸ hy)) .inr⟩
    · simp only [List.mem_append, List.mem_cons, List.not_mem_nil, or_false]
      tauto

lemma nodup_unite {a b : List ℕ} (ha : a.Nodup) : (unite a b).Nodup := by
  unfold unite
  induction b generalizing a with
  | nil => exact ha
  | cons y b ih =>
    rw [List.foldl_cons]
    refine ih ?_
    split
    · exact ha
    · next hy =>
      exact (List.perm_append_singleton y a).nodup_iff.mpr
        (List.nodup_cons.mpr ⟨by simpa using hy, ha⟩)

lemma overlap_iff {a b : List ℕ} : overlap a b = true ↔ ∃ i ∈ a, i ∈ b := by
  simp [overlap]

/-- What absorbing has come to: the groups set apart, those still to come and the united one have
no position in common. -/
structure Absorbing (n : ℕ) (apart rest : List (List ℕ)) (merged : List ℕ) : Prop where
  valid : Valid n (apart ++ rest)
  nodup : merged.Nodup
  lt : ∀ i ∈ merged, i < n
  disjoint : ∀ i ∈ merged, i ∉ apart.flatten

lemma Absorbing.step {apart rest : List (List ℕ)} {merged o : List ℕ}
    (h : Absorbing n apart (o :: rest) merged) :
    if overlap o merged then Absorbing n apart rest (unite o merged)
    else Absorbing n (apart ++ [o]) rest merged := by
  obtain ⟨⟨hnodup, hlt⟩, hm, hmlt, hdis⟩ := h
  have hflat : (apart ++ o :: rest).flatten = apart.flatten ++ (o ++ rest.flatten) := by simp
  rw [hflat] at hnodup hlt
  rw [List.nodup_append] at hnodup
  obtain ⟨hapart, hrest, hcross⟩ := hnodup
  rw [List.nodup_append] at hrest
  split
  · refine ⟨⟨?_, ?_⟩, nodup_unite hrest.1, ?_, ?_⟩
    · rw [List.flatten_append, List.nodup_append]
      exact ⟨hapart, hrest.2.1, fun i hi j hj => hcross i hi j (List.mem_append_right _ hj)⟩
    · intro i hi
      rw [List.flatten_append, List.mem_append] at hi
      exact hlt i (List.mem_append.mpr (hi.imp_right fun h => List.mem_append_right _ h))
    · intro i hi
      rcases mem_unite.mp hi with hi | hi
      · exact hlt i (List.mem_append_right _ (List.mem_append_left _ hi))
      · exact hmlt i hi
    · intro i hi hmem
      rcases mem_unite.mp hi with hi | hi
      · exact hcross i hmem i (List.mem_append_left _ hi) rfl
      · exact hdis i hi hmem
  · next hover =>
    rw [overlap_iff] at hover
    refine ⟨⟨?_, ?_⟩, hm, hmlt, ?_⟩
    · rw [List.append_assoc, List.singleton_append, hflat, List.nodup_append, List.nodup_append]
      exact ⟨hapart, hrest, hcross⟩
    · rw [List.append_assoc, List.singleton_append, hflat]
      exact hlt
    · intro i hi hmem
      rw [List.flatten_append, List.mem_append] at hmem
      rcases hmem with hmem | hmem
      · exact hdis i hi hmem
      · exact hover ⟨i, by simpa using hmem, hi⟩

lemma Absorbing.foldl (rest : List (List ℕ)) (acc : List (List ℕ) × List ℕ)
    (h : Absorbing n acc.1 rest acc.2) :
    let out := rest.foldl (fun (apart, merged) o =>
      if overlap o merged then (apart, unite o merged) else (apart ++ [o], merged)) acc
    Absorbing n out.1 [] out.2 := by
  induction rest generalizing acc with
  | nil => exact h
  | cons o rest ih =>
    have hstep := h.step
    rw [List.foldl_cons]
    refine ih _ ?_
    by_cases ho : overlap o acc.2 = true
    · rw [if_pos ho] at hstep
      simpa only [if_pos ho] using hstep
    · rw [if_neg ho] at hstep
      simpa only [if_neg ho] using hstep

lemma Valid.absorb {g : List ℕ} (h : Valid n groups) (hg : g.Nodup) (hlt : ∀ i ∈ g, i < n) :
    Valid n (absorb groups g) := by
  obtain ⟨hv, hm, hmlt, hdis⟩ :=
    Absorbing.foldl groups ([], g) ⟨by simpa using h, hg, hlt, by simp⟩
  rw [List.append_nil] at hv
  unfold Groups.absorb
  refine ⟨?_, ?_⟩
  · rw [List.flatten_append, List.flatten_singleton, List.nodup_append]
    refine ⟨hv.nodup, hm, ?_⟩
    rintro i hi j hj rfl
    exact hdis i hj hi
  · intro i hi
    rw [List.flatten_append, List.flatten_singleton, List.mem_append] at hi
    exact hi.elim (hv.lt i) (hmlt i)

lemma Valid.of_perm {groups' : List (List ℕ)} (h : Valid n groups)
    (hp : groups'.flatten.Perm groups.flatten) : Valid n groups' :=
  ⟨hp.nodup_iff.mpr h.nodup, fun i hi => h.lt i (hp.mem_iff.mp hi)⟩

/-- **United groups are disjoint.** -/
lemma valid_merge (h : ∀ g ∈ groups, g.Nodup ∧ ∀ i ∈ g, i < n) : Valid n (merge groups) := by
  have hfold : ∀ (groups acc : List (List ℕ)), (∀ g ∈ groups, g.Nodup ∧ ∀ i ∈ g, i < n) →
      Valid n acc → Valid n (groups.foldl Groups.absorb acc) := by
    intro groups
    induction groups with
    | nil => exact fun _ _ h => h
    | cons g groups ih =>
      intro acc hg hacc
      obtain ⟨hnodup, hlt⟩ := hg g List.mem_cons_self
      exact ih _ (fun g hmem => hg g (List.mem_cons_of_mem _ hmem)) (hacc.absorb hnodup hlt)
  refine (hfold groups [] h ⟨List.nodup_nil, by simp⟩).of_perm ?_
  unfold merge
  refine (List.mergeSort_perm _ _).flatten.trans ?_
  generalize groups.foldl Groups.absorb [] = united
  induction united with
  | nil => exact .refl _
  | cons g united ih =>
    simp only [List.map_cons, List.flatten_cons]
    exact (List.mergeSort_perm g _).append ih

end Groups

/-! ### Composed presentations -/

namespace Symmetry

variable {t : Symmetry}

lemma isPerm_generators (h : t.Valid) : ∀ p ∈ t.generators, IsPerm t.neighborhood.size p := by
  intro p hp
  unfold generators at hp
  cases hpres : t.presentation with
  | generated gens =>
    unfold Valid at h
    rw [hpres] at h hp
    exact h p hp
  | listed members =>
    rw [hpres] at hp
    exact isPerm_of_mem h hp
  | free groups =>
    unfold Valid at h
    rw [hpres] at h hp
    exact isPerm_transpositions h p hp

lemma valid_groups (h : t.Valid) {groups : List (List ℕ)} (hg : t.groups? = some groups) :
    Groups.Valid t.neighborhood.size groups := by
  unfold Valid at h
  rwa [presentation_of_groups? hg] at h

end Symmetry

namespace Registry

variable {nb : Neighborhood} {ts : List Symmetry}

lemma exists_of_mem_mapM {α β : Type} {f : α → Option β} {l : List α} {bs : List β}
    (h : l.mapM f = some bs) {b : β} (hb : b ∈ bs) : ∃ a ∈ l, f a = some b := by
  induction l generalizing bs with
  | nil =>
    cases h
    cases hb
  | cons a l ih =>
    rw [List.mapM_cons] at h
    obtain ⟨c, hc, h⟩ := Option.bind_eq_some_iff.mp h
    obtain ⟨cs, hcs, h⟩ := Option.bind_eq_some_iff.mp h
    cases h
    rcases List.mem_cons.mp hb with rfl | hb
    · exact ⟨a, List.mem_cons_self, hc⟩
    · obtain ⟨a', ha', he⟩ := ih hcs hb
      exact ⟨a', List.mem_cons_of_mem _ ha', he⟩

lemma closed_composition (ts : List Symmetry) : (composition ts).Closed := by
  unfold composition
  split <;> trivial

lemma groups_of_valid {groups : List (List (List ℕ))}
    (h : ∀ t ∈ ts, t.Valid ∧ t.neighborhood = nb) (hgroups : ts.mapM (·.groups?) = some groups) :
    ∀ g ∈ groups.flatten, g.Nodup ∧ ∀ i ∈ g, i < nb.size := by
  intro g hg
  obtain ⟨gs, hgs, hmem⟩ := List.mem_flatten.mp hg
  obtain ⟨t, ht, hgr⟩ := exists_of_mem_mapM hgroups hgs
  have hv := Symmetry.valid_groups (h t ht).1 hgr
  rw [(h t ht).2] at hv
  exact ⟨(List.nodup_flatten.mp hv.nodup).1 g hmem,
    fun i hi => hv.lt i (List.mem_flatten.mpr ⟨g, hmem, hi⟩)⟩

lemma valid_composition (h : ∀ t ∈ ts, t.Valid ∧ t.neighborhood = nb) :
    (composition ts).Valid nb.size := by
  unfold composition
  split
  · next groups hgroups => exact Groups.valid_merge (groups_of_valid h hgroups)
  · intro p hp
    obtain ⟨t, ht, hp⟩ := List.mem_flatMap.mp hp
    rw [← (h t ht).2]
    exact Symmetry.isPerm_generators (h t ht).1 p hp

end Registry

end RuleTable
