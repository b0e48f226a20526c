import RuleTable.Proofs.Meanings
import RuleTable.Proofs.Requests

/-!
Compositions and the groups that their parts generate.

Composing types gives the least set of relabelings that has those of all parts and is closed under
following one by another and under undoing them. The exception is a type alone, which is handed back
as it is: a union that is not a group stays one.
-/

namespace RuleTable

namespace Relabeling

variable {n : ℕ} {p q : Relabeling} {gens : List Relabeling}

lemma IsPerm.andThen_inverse (hp : IsPerm n p) : p.andThen p.inverse = identity n := by
  refine List.ext_getElem? fun j => ?_
  rw [Relabeling.andThen, List.getElem?_map, identity]
  by_cases hj : j < n
  · obtain ⟨i, hi⟩ := List.mem_iff_getElem?.mp (hp.mem_iff.mpr hj)
    simp [hp.getElem?_inverse hi, hi, hj]
  · have hlen : p.inverse.length ≤ j := by
      rw [length_inverse, hp.length]
      omega
    simp [hj, hlen]

/-- The relabelings can be followed by each other and undone. -/
structure Closed (s : Set Relabeling) : Prop where
  andThen : ∀ p ∈ s, ∀ q ∈ s, p.andThen q ∈ s
  inverse : ∀ p ∈ s, p.inverse ∈ s

lemma IsGroup.closed {s : List Relabeling} (h : IsGroup n s) : Closed {p | p ∈ s} where
  andThen := h.mul
  inverse p hp := by
    obtain ⟨q, hq, hpq⟩ := h.inverse hp
    have hp' := h.perm p hp
    rwa [hp'.andThen_cancel (h.perm q hq) hp'.inverse (hpq.trans hp'.andThen_inverse.symm)] at hq

/-- Products stay where the identity is and each generator can follow. -/
lemma Product.mem {s : Set Relabeling} (hp : Product n gens p) (hone : identity n ∈ s)
    (hmul : ∀ p ∈ s, ∀ g ∈ gens, p.andThen g ∈ s) : p ∈ s := by
  induction hp with
  | one => exact hone
  | snoc _ hg ih => exact hmul _ ih _ hg

end Relabeling

namespace Registry

open Relabeling

variable {r r' : Registry} {nb : Neighborhood} {ts : List Symmetry} {t : Symmetry} {p : Relabeling}

/-- The type is the group that the types generate: the least closed set that has all their
relabelings. -/
structure Generates (ts : List Symmetry) (t : Symmetry) : Prop where
  closed : Closed {p | p ∈ t.relabelings}
  contains : ∀ u ∈ ts, ∀ p ∈ u.relabelings, p ∈ t.relabelings
  least : ∀ s, Closed s → (∀ u ∈ ts, ∀ p ∈ u.relabelings, p ∈ s) → ∀ p ∈ t.relabelings, p ∈ s

lemma generates_singleton_iff : Generates [t] t ↔ Closed {p | p ∈ t.relabelings} := by
  refine ⟨fun h => h.closed, fun h => ⟨h, ?_, fun s _ hs => hs t List.mem_cons_self⟩⟩
  intro u hu p hp
  rwa [← List.mem_singleton.mp hu]

/-- A stored composition has the products of the relabelings of the parts, though it may have been
made of other parts with the same names. -/
lemma Stands.mem_composition_iff (hr : r.Sound) (hne : ts ≠ [])
    (hts : ∀ u ∈ ts, r.Knows u ∧ u.neighborhood = nb)
    (ht : Stands r nb ("compose(" ++ sortedNames ts ++ ")") t) :
    p ∈ t.relabelings ↔ Product nb.size (ts.flatMap (·.relabelings)) p := by
  obtain ⟨us, hne', hus, hnames, hp⟩ := (ht.made hr).composed
  have hsame := ((inherited_alike hr hr).matched hr hr hts hus hne hne'
    hnames.symm).mem_flatMap_relabelings
  rw [Symmetry.relabelings_eq, hp, ht.neighborhood,
    Registry.mem_composition_iff fun u hu => ⟨hr.valid u (hus u hu).1, (hus u hu).2⟩]
  exact ⟨Product.mono fun q => (hsame q).mpr, Product.mono fun q => (hsame q).mp⟩

lemma Stands.generates (hr : r.Sound) (hne : ts ≠ [])
    (hts : ∀ u ∈ ts, r.Knows u ∧ u.neighborhood = nb)
    (ht : Stands r nb ("compose(" ++ sortedNames ts ++ ")") t) : Generates ts t := by
  have hmem := fun p => ht.mem_composition_iff (p := p) hr hne hts
  have hclosed : t.presentation.Closed := by
    obtain ⟨us, -, -, -, hp⟩ := (ht.made hr).composed
    exact hp ▸ closed_composition us
  have hperm : ∀ u ∈ ts, ∀ p ∈ u.relabelings, IsPerm nb.size p := fun u hu p hp =>
    (hts u hu).2 ▸ Symmetry.isPerm_of_mem (hr.valid u (hts u hu).1) hp
  refine ⟨(Symmetry.isGroup (hr.valid t ht.knows) hclosed).closed, fun u hu p hp => ?_, ?_⟩
  · exact (hmem p).mpr (.of_mem (hperm u hu p hp) (List.mem_flatMap.mpr ⟨u, hu, hp⟩))
  · intro s hs hparts p hp
    obtain ⟨u, hu⟩ := List.exists_mem_of_ne_nil ts hne
    have hone := hparts u hu _ (Symmetry.identity_mem (hr.valid u (hts u hu).1))
    rw [(hts u hu).2] at hone
    refine ((hmem p).mp hp).mem hone fun q hq g hg => ?_
    obtain ⟨v, hv, hg⟩ := List.mem_flatMap.mp hg
    exact hs.andThen q hq g (hparts v hv g hg)

/-- **Compositions are generated groups,** unless there is one part and it is not a group. Composing
types of one registry on one neighborhood always gives a type on it; a type alone is given back. It
is the group that the types generate exactly if there are several of them, or the one is closed. -/
theorem compose_generates_iff (hr : r.Reachable) (hne : ts ≠ [])
    (hts : ∀ u ∈ ts, r.Knows u ∧ u.neighborhood = nb) :
    ∃ t r', runFrom (compose ts) r = (.ok t, r') ∧ t.neighborhood = nb ∧ (∀ u, ts = [u] → t = u) ∧
      (Generates ts t ↔ ∀ u, ts = [u] → Closed {p | p ∈ u.relabelings}) := by
  obtain ⟨t, r', hrun⟩ := succeeds_compose (r := r) hne fun u hu => (hts u hu).2
  have hkeeps := stores_compose hr.sound hts
  have hsound := hkeeps.sound
  have hext := hkeeps.grows
  have hpost := hkeeps.post t (by rw [hrun])
  rw [hrun] at hsound hext hpost
  refine ⟨t, r', hrun, ?_⟩
  by_cases halone : ∃ u, ts = [u]
  · obtain ⟨u, rfl⟩ := halone
    have hsame : t = u := by
      obtain ⟨_, _, -, hback⟩ := runFrom_bind_ok.mp hrun
      cases hback
      rfl
    subst hsame
    refine ⟨(hts t List.mem_cons_self).2, by rintro _ ⟨⟩; rfl, generates_singleton_iff.trans ?_⟩
    exact ⟨fun h => by rintro _ ⟨⟩; exact h, fun h => h t rfl⟩
  · push Not at halone
    have hstands := hpost.resolve_left (halone t)
    refine ⟨hstands.neighborhood, fun u hu => absurd hu (halone u), ?_⟩
    refine iff_of_true ?_ fun u hu => absurd hu (halone u)
    exact hstands.generates hsound hne fun u hu => ⟨(hts u hu).1.mono hext, (hts u hu).2⟩

/-! ### Quarter turns and one reflection, together -/

/-- A stored union has the relabelings of the parts. -/
lemma Stands.mem_combination_iff (hr : r.Sound) (hne : ts ≠ [])
    (hts : ∀ u ∈ ts, r.Knows u ∧ u.neighborhood = nb)
    (ht : Stands r nb ("combine(" ++ sortedNames ts ++ ")") t) :
    p ∈ t.relabelings ↔ p ∈ ts.flatMap (·.relabelings) := by
  obtain ⟨us, hne', hus, hnames, hp⟩ := (ht.made hr).combined
  have hsame := ((inherited_alike hr hr).matched hr hr hts hus hne hne'
    hnames.symm).mem_flatMap_relabelings
  obtain ⟨u, hu⟩ := List.exists_mem_of_ne_nil ts hne
  have hone := Symmetry.identity_mem (hr.valid u (hts u hu).1)
  rw [(hts u hu).2] at hone
  rw [Symmetry.relabelings_eq, hp, ht.neighborhood]
  simp only [Presentation.members, Relabeling.listed, Distinct.mem_ofList, List.mem_cons, ← hsame]
  refine or_iff_right_of_imp ?_
  rintro rfl
  exact List.mem_flatMap.mpr ⟨u, hu, hone⟩

def quarterTurns : List Relabeling := [[0, 1, 2, 3], [3, 0, 1, 2], [2, 3, 0, 1], [1, 2, 3, 0]]

/-- Turning after reflecting is not in the union of the turns and one reflection. -/
lemma not_closed_of_turns_and_flip {turns flip : Symmetry} (hr : r.Sound)
    (hturns : Stands r .vonNeumann "rotate4" turns)
    (hflip : Stands r .vonNeumann "reflect(N,S)" flip)
    (ht : ∀ p, p ∈ t.relabelings ↔ p ∈ [turns, flip].flatMap (·.relabelings)) :
    ¬ Closed {p | p ∈ t.relabelings} := by
  obtain ⟨rotations, hrot, hp⟩ : ∃ rotations,
      Neighborhood.vonNeumann.rotationsBy 4 = .ok rotations ∧
        turns.presentation = .generated rotations := Made.rotations (hturns.made hr)
  obtain ⟨q, hq, hp'⟩ := Made.reflection (a := "N") (b := "S") (by decide) (hflip.made hr)
  obtain rfl : quarterTurns = rotations := by
    have : Neighborhood.vonNeumann.rotationsBy 4 = .ok quarterTurns := by cbv
    exact Except.ok.inj (this.symm.trans hrot)
  obtain rfl : [0, 3, 2, 1] = q := by
    have : Neighborhood.vonNeumann.reflectAcross "N" "S" = .ok [0, 3, 2, 1] := by cbv
    exact Except.ok.inj (this.symm.trans hq)
  have hgens : turns.generators = quarterTurns := by rw [Symmetry.generators, hp]
  have hgens' : flip.generators = [[0, 3, 2, 1]] := by rw [Symmetry.generators, hp']
  have hvt := hr.valid turns hturns.knows
  have hvf := hr.valid flip hflip.knows
  simp only [List.flatMap_cons, List.flatMap_nil, List.append_nil, List.mem_append] at ht
  intro hclosed
  have hflipped : [0, 3, 2, 1] ∈ t.relabelings :=
    (ht _).mpr (.inr (Symmetry.mem_relabelings_of_generator hvf (by simp [hgens'])))
  have hturned : [3, 0, 1, 2] ∈ t.relabelings :=
    (ht _).mpr (.inl (Symmetry.mem_relabelings_of_generator hvt (by simp [hgens, quarterTurns])))
  have hboth : [1, 0, 3, 2] ∈ t.relabelings := hclosed.andThen _ hflipped _ hturned
  rcases (ht _).mp hboth with h | h
  · have hprod := Symmetry.product_of_mem_relabelings hvt h
    rw [hgens, hturns.neighborhood] at hprod
    have hturn : ∀ p ∈ quarterTurns, ∀ g ∈ quarterTurns, p.andThen g ∈ quarterTurns := by decide
    exact absurd (hprod.mem (s := {p | p ∈ quarterTurns}) (by decide) hturn) (by decide)
  · have hprod := Symmetry.product_of_mem_relabelings hvf h
    rw [hgens', hflip.neighborhood] at hprod
    have hback : ∀ p ∈ [[0, 1, 2, 3], [0, 3, 2, 1]], ∀ g ∈ [[0, 3, 2, 1]],
        andThen p g ∈ [[0, 1, 2, 3], [0, 3, 2, 1]] := by decide
    exact absurd (hprod.mem (s := {p | p ∈ [[0, 1, 2, 3], [0, 3, 2, 1]]}) (by decide) hback)
      (by decide)

/-- The turns and the reflection, combined: composed alone they stay a union, which is no group;
composed with themselves they generate one. -/
theorem compose_of_turns_and_flip : ∃ turns flip c r₁ r₂ r,
    runFrom (rotate .vonNeumann 4) {} = (.ok turns, r₁) ∧
    runFrom (reflect .vonNeumann "N" "S") r₁ = (.ok flip, r₂) ∧
    runFrom (combine [turns, flip]) r₂ = (.ok c, r) ∧
    (∃ t r', runFrom (compose [c]) r = (.ok t, r') ∧ t = c ∧ ¬ Generates [c] t) ∧
    ∃ t r', runFrom (compose [c, c]) r = (.ok t, r') ∧ Generates [c, c] t := by
  obtain ⟨turns, r₁, hturns⟩ : Succeeds {} (rotate .vonNeumann 4) := succeeds_rotate rfl
  obtain ⟨flip, r₂, hflip⟩ : Succeeds r₁ (reflect .vonNeumann "N" "S") := succeeds_reflect rfl
  have hr₁ : r₁.Reachable :=
    Reachable.ask .start (.rotate .vonNeumann 4) (List.forall_mem_nil _) (congrArg Prod.snd hturns)
  have hr₂ : r₂.Reachable :=
    hr₁.ask (.reflect .vonNeumann "N" "S") (List.forall_mem_nil _) (congrArg Prod.snd hflip)
  have hstands : Stands r₁ .vonNeumann "rotate4" turns := by
    have h := (stores_rotate sound_empty .vonNeumann 4).post turns (by rw [hturns])
    rwa [hturns] at h
  have hflips := stores_reflect hr₁.sound .vonNeumann "N" "S"
  have hstands' : Stands r₂ .vonNeumann "reflect(N,S)" flip := by
    have h := hflips.post flip (by rw [hflip])
    rwa [hflip] at h
  have hext : r₁.Extends r₂ := by
    have h := hflips.grows
    rwa [hflip] at h
  have hparts : ∀ u ∈ [turns, flip], r₂.Knows u ∧ u.neighborhood = .vonNeumann := by
    simp [hstands.knows.mono hext, hstands.neighborhood, hstands'.knows, hstands'.neighborhood]
  have hne : [turns, flip] ≠ [] := List.cons_ne_nil _ _
  obtain ⟨c, r, hc⟩ := succeeds_combine (r := r₂) hne fun u hu => (hparts u hu).2
  have hr : r.Reachable :=
    hr₂.ask (.combine [turns, flip]) (fun u hu => (hparts u hu).1) (congrArg Prod.snd hc)
  have hunion := stores_combine hr₂.sound hparts
  have hgrows := hunion.grows
  have hstands'' := hunion.post c (by rw [hc])
  rw [hc] at hgrows hstands''
  replace hstands'' := hstands''.resolve_left (by simp)
  have hmem := fun p => hstands''.mem_combination_iff (p := p) hr.sound hne
    fun u hu => ⟨(hparts u hu).1.mono hgrows, (hparts u hu).2⟩
  have hknown : ∀ {ts : List Symmetry}, (∀ u ∈ ts, u = c) →
      ∀ u ∈ ts, r.Knows u ∧ u.neighborhood = .vonNeumann :=
    fun h u hu => h u hu ▸ ⟨hstands''.knows, hstands''.neighborhood⟩
  obtain ⟨t, r', hrun, -, hsame, hgen⟩ := compose_generates_iff hr (List.cons_ne_nil c [])
    (hknown (by simp))
  obtain ⟨t', r'', hrun', -, -, hgen'⟩ := compose_generates_iff hr (List.cons_ne_nil c [c])
    (hknown (by simp))
  refine ⟨turns, flip, c, r₁, r₂, r, hturns, hflip, hc, ⟨t, r', hrun, hsame c rfl, ?_⟩, t', r'',
    hrun', hgen'.mpr (by simp)⟩
  refine fun h => not_closed_of_turns_and_flip hr₂.sound ?_ hstands' hmem (hgen.mp h c rfl)
  exact ⟨hstands.knows.mono hext, hstands.key, hstands.neighborhood⟩

end Registry

end RuleTable
