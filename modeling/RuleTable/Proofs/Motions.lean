import RuleTable.Proofs.Frames
import RuleTable.Proofs.Meanings
import RuleTable.Proofs.Requests

/-!
Moving a transition together with its auxiliaries.

A relabeling that comes from a motion of the plane takes the cell that lies at `d` from `target` to
the one that lies at the image of `d` from the image of `target`. So the rows for the cells that
change along with the acting one are moved with it: what is seen stays seen, and what is not stays
hidden. Turns by an eighth are relabelings of the square of eight neighbors, but no motions.
-/

namespace RuleTable

namespace Neighborhood

variable {nb : Neighborhood}

lemma sites_inj {k l : ℕ} {d : Direction} (hk : nb.sites[k]? = some d)
    (hl : nb.sites[l]? = some d) : k = l := by
  rw [← nb.slotOf_eq_some_iff] at hk hl
  exact Option.some.inj (hk.symm.trans hl)

def offsetAt (nb : Neighborhood) (i : ℕ) : ℤ × ℤ := (nb.sites.getD i .c).offset

lemma offsetAt_of_getElem? {i : ℕ} {d : Direction} (h : nb.sites[i]? = some d) :
    nb.offsetAt i = d.offset := by
  rw [offsetAt, List.getD_eq_getElem?_getD, h, Option.getD_some]

lemma exists_site {i : ℕ} (h : i < nb.sites.length) : ∃ d, nb.sites[i]? = some d :=
  ⟨_, List.getElem?_eq_getElem h⟩

lemma lt_of_site {i : ℕ} {d : Direction} (h : nb.sites[i]? = some d) : i < nb.sites.length :=
  (List.getElem?_eq_some_iff.mp h).1

end Neighborhood

namespace Rule

/-! ### Motions -/

/-- A rearrangement of the slots that keeps which cell lies where from another. -/
structure Motion (nb : Neighborhood) where
  /-- the slot whose content comes to a slot -/
  source : ℕ → ℕ
  /-- the slot that the content of a slot goes to -/
  image : ℕ → ℕ
  source_lt : ∀ i < nb.sites.length, source i < nb.sites.length
  image_lt : ∀ i < nb.sites.length, image i < nb.sites.length
  source_image : ∀ i < nb.sites.length, source (image i) = i
  image_source : ∀ i < nb.sites.length, image (source i) = i
  rigid : ∀ i < nb.sites.length, ∀ j < nb.sites.length, ∀ k < nb.sites.length,
    (nb.offsetAt i = nb.offsetAt j + nb.offsetAt k ↔
      nb.offsetAt (source i) = nb.offsetAt (source j) + nb.offsetAt (source k))

variable {nb : Neighborhood} {m : Motion nb}

/-- The motion back. -/
def Motion.symm (m : Motion nb) : Motion nb where
  source := m.image
  image := m.source
  source_lt := m.image_lt
  image_lt := m.source_lt
  source_image := m.image_source
  image_source := m.source_image
  rigid := by
    intro i hi j hj k hk
    rw [m.rigid _ (m.image_lt i hi) _ (m.image_lt j hj) _ (m.image_lt k hk), m.source_image i hi,
      m.source_image j hj, m.source_image k hk]

/-- The list `ys` has at every slot what `xs` has at the slot that the motion brings there. -/
def Motion.Carries {α : Type} (m : Motion nb) (xs ys : List α) : Prop :=
  ∀ i < nb.sites.length, ys[i]? = xs[m.source i]?

lemma Motion.Carries.image {α : Type} {xs ys : List α} (h : m.Carries xs ys) {i : ℕ}
    (hi : i < nb.sites.length) : ys[m.image i]? = xs[i]? := by
  rw [h _ (m.image_lt i hi), m.source_image i hi]

lemma Motion.Carries.symm {α : Type} {xs ys : List α} (h : m.Carries xs ys) :
    m.symm.Carries ys xs := fun _ hi => (h.image hi).symm

/-- The cells are one, but for the slot that they refer to, which the motion moves. -/
def Motion.Readdresses (m : Motion nb) (c c' : Cell) : Prop :=
  (c.ref? = none ∧ c' = c) ∨ ∃ ref ref' : ℤ, c.ref? = some ref ∧ c'.ref? = some ref' ∧
    ref.toNat < nb.sites.length ∧ ref'.toNat = m.image ref.toNat ∧
    ∀ k y x, c'.Image k y x ↔ c.Image k y x

lemma Motion.Readdresses.symm {c c' : Cell} (h : m.Readdresses c c') :
    m.symm.Readdresses c' c := by
  obtain ⟨hr, rfl⟩ | ⟨ref, ref', hr, hr', hlt, hto, himage⟩ := h
  · exact .inl ⟨hr, rfl⟩
  · refine .inr ⟨ref', ref, hr', hr, hto ▸ m.image_lt _ hlt, ?_, fun k y x => (himage k y x).symm⟩
    rw [hto]
    exact (m.source_image _ hlt).symm

variable {row row' : Row} {n : ℤ} {value value' : Cell} {target target' : Direction}
  {choice : ℤ → ℕ} {tuple tuple' : List ℤ}

lemma Evaluates.carry {x : Stand} (hrow : m.Carries row row') (hvalue : m.Readdresses value value')
    (h : Evaluates row choice value x) : Evaluates row' choice value' x := by
  obtain ⟨k, h⟩ := h
  refine ⟨k, ?_⟩
  obtain ⟨hr, rfl⟩ | ⟨ref, ref', hr, hr', hlt, hto, himage⟩ := hvalue
  · rwa [hr] at h ⊢
  · rw [hr] at h
    rw [hr']
    obtain ⟨v, y, hv, hy, hx⟩ := h
    exact ⟨v, y, by rw [hto, hrow.image hlt, hv], hy, (himage k y x).mpr hx⟩

lemma SeenAt.carry {i : ℕ} {d d' : Direction} {t : ℤ} (hrow : m.Carries row row')
    (hd : nb.sites[m.source i]? = some d) (hd' : nb.sites[i]? = some d')
    (h : SeenAt nb row choice d t) : SeenAt nb row' choice d' t := by
  obtain ⟨k, v, x, hk, hv, hx, ht⟩ := h
  obtain rfl := Neighborhood.sites_inj hk hd
  exact ⟨i, v, x, hd', by rw [hrow i (Neighborhood.lt_of_site hd'), hv], hx, ht⟩

/-- **Foresight moves along.** What is seen in the row stays seen where it is carried to, and what
is hidden stays hidden. -/
lemma Foreseen.carry {i : ℕ} (hrow : m.Carries row row') (htuple : m.Carries tuple tuple')
    (hlen : tuple'.length = tuple.length)
    (hlast : tuple'[nb.sites.length]? = tuple[nb.sites.length]?)
    (htarget : nb.sites[i]? = some target) (htarget' : nb.sites[m.image i]? = some target')
    (hvalue : m.Readdresses value value')
    (h : Foreseen nb row n value target choice tuple) :
    Foreseen nb row' n value' target' choice tuple' := by
  have hi := Neighborhood.lt_of_site htarget
  -- slots `k` and `j` lie as seen from the image of the target as their sources from the target
  have hrigid : ∀ {j k : ℕ} {d d₀ site site₀ : Direction}, nb.sites[j]? = some d →
      nb.sites[m.source j]? = some d₀ → nb.sites[k]? = some site →
      nb.sites[m.source k]? = some site₀ →
      (site.offset = target'.offset + d.offset ↔ site₀.offset = target.offset + d₀.offset) := by
    intro j k d d₀ site site₀ hd hd₀ hsite hsite₀
    have := m.rigid k (Neighborhood.lt_of_site hsite) _ (m.image_lt i hi) j
      (Neighborhood.lt_of_site hd)
    rwa [m.source_image i hi, Neighborhood.offsetAt_of_getElem? hsite,
      Neighborhood.offsetAt_of_getElem? hsite₀, Neighborhood.offsetAt_of_getElem? hd,
      Neighborhood.offsetAt_of_getElem? hd₀, Neighborhood.offsetAt_of_getElem? htarget,
      Neighborhood.offsetAt_of_getElem? htarget'] at this
  refine ⟨hlen.trans h.size, ?_, ?_, ?_⟩
  · intro j d site t hd ht hsite hoff
    have hj := Neighborhood.lt_of_site hd
    obtain ⟨k, hk, rfl⟩ := List.getElem_of_mem hsite
    have hsite' := List.getElem?_eq_getElem hk
    obtain ⟨d₀, hd₀⟩ := Neighborhood.exists_site (m.source_lt j hj)
    obtain ⟨site₀, hsite₀⟩ := Neighborhood.exists_site (m.source_lt k hk)
    rw [htuple j hj] at ht
    exact (h.seen _ d₀ site₀ t hd₀ ht (List.mem_of_getElem? hsite₀)
      ((hrigid hd hd₀ hsite' hsite₀).mp hoff)).carry hrow hsite₀ hsite'
  · intro j d t hd ht hoff
    have hj := Neighborhood.lt_of_site hd
    obtain ⟨d₀, hd₀⟩ := Neighborhood.exists_site (m.source_lt j hj)
    rw [htuple j hj] at ht
    refine h.unseen _ d₀ t hd₀ ht fun site₀ hsite₀ hoff₀ => ?_
    obtain ⟨k, hk⟩ := List.mem_iff_getElem?.mp hsite₀
    have hlt := Neighborhood.lt_of_site hk
    obtain ⟨site, hsite⟩ := Neighborhood.exists_site (m.image_lt k hlt)
    have hback : nb.sites[m.source (m.image k)]? = some site₀ := by rwa [m.source_image k hlt]
    exact hoff site (List.mem_of_getElem? hsite) ((hrigid hd hd₀ hsite hback).mpr hoff₀)
  · intro t ht
    rw [hlast] at ht
    obtain ⟨x, hx, hxt⟩ := h.result t ht
    exact ⟨x, hx.carry hrow hvalue, hxt⟩

/-! ### Relabelings that are motions -/

/-- The slot whose content a relabeling brings to a slot; the center stays. -/
def slotFrom (p : Relabeling) : ℕ → ℕ
  | 0 => 0
  | i + 1 => p.getD i 0 + 1

/-- The relabeling keeps which cell lies where from another. -/
def Rigid (nb : Neighborhood) (p : Relabeling) : Prop :=
  ∀ i < nb.sites.length, ∀ j < nb.sites.length, ∀ k < nb.sites.length,
    (nb.offsetAt i = nb.offsetAt j + nb.offsetAt k ↔
      nb.offsetAt (slotFrom p i) = nb.offsetAt (slotFrom p j) + nb.offsetAt (slotFrom p k))

instance (nb : Neighborhood) (p : Relabeling) : Decidable (Rigid nb p) :=
  inferInstanceAs (Decidable (∀ i < _, ∀ j < _, ∀ k < _, _))

open Relabeling

variable {p : Relabeling}

lemma slotFrom_lt (hp : IsPerm nb.size p) : ∀ i < nb.sites.length,
    slotFrom p i < nb.sites.length := by
  intro i hi
  cases i with
  | zero => exact hi
  | succ i =>
    have hlt : i < p.length := by
      rw [hp.length]
      exact Nat.lt_of_succ_lt_succ hi
    have := hp.mem_iff.mp (List.getElem_mem hlt)
    rw [slotFrom, List.getD_eq_getElem _ _ hlt]
    exact Nat.succ_lt_succ this

lemma slotFrom_slotFrom {q : Relabeling} (hp : IsPerm nb.size p)
    (hq : ∀ i j : ℕ, p[i]? = some j → q[j]? = some i) :
    ∀ i < nb.sites.length, slotFrom q (slotFrom p i) = i := by
  intro i hi
  cases i with
  | zero => rfl
  | succ i =>
    have hlt : i < p.length := by
      rw [hp.length]
      exact Nat.lt_of_succ_lt_succ hi
    have hj := List.getElem?_eq_getElem hlt
    rw [slotFrom, List.getD_eq_getElem?_getD, hj, Option.getD_some, slotFrom,
      List.getD_eq_getElem?_getD, hq _ _ hj, Option.getD_some]

def motionOf (hp : IsPerm nb.size p) (hrigid : Rigid nb p) : Motion nb where
  source := slotFrom p
  image := slotFrom p.inverse
  source_lt := slotFrom_lt hp
  image_lt := slotFrom_lt hp.inverse
  source_image := slotFrom_slotFrom hp.inverse fun _ _ => hp.getElem?_of_inverse
  image_source := slotFrom_slotFrom hp fun _ _ => hp.getElem?_inverse
  rigid := hrigid

end Rule

/-! ### Turns and flips -/

namespace Neighborhood

open Relabeling

def turnsAndFlips (nb : Neighborhood) : List Relabeling :=
  (List.range nb.size).flatMap fun k =>
    [(List.range nb.size).map fun i => (i + k) % nb.size,
      (List.range nb.size).map fun i => (k + nb.size - i) % nb.size]

lemma isPerm_of_turnsAndFlips (nb : Neighborhood) : ∀ p ∈ nb.turnsAndFlips, IsPerm nb.size p := by
  cases nb <;> decide +kernel

lemma andThen_mem_turnsAndFlips (nb : Neighborhood) : ∀ p ∈ nb.turnsAndFlips,
    ∀ q ∈ nb.turnsAndFlips, p.andThen q ∈ nb.turnsAndFlips := by
  cases nb <;> decide +kernel

lemma product_mem_turnsAndFlips {nb : Neighborhood} {gens : List Relabeling} {p : Relabeling}
    (hgens : ∀ g ∈ gens, g ∈ nb.turnsAndFlips) (hp : Product nb.size gens p) :
    p ∈ nb.turnsAndFlips := by
  induction hp with
  | one => cases nb <;> decide +kernel
  | snoc _ hg ih => exact nb.andThen_mem_turnsAndFlips _ ih _ (hgens _ hg)

/-- Of the square of eight neighbors only the turns and flips that take sides to sides are motions;
of the other neighborhoods all of them are. -/
lemma rigid_iff_of_turnsAndFlips (nb : Neighborhood) : ∀ p ∈ nb.turnsAndFlips,
    (Rule.Rigid nb p ↔ (nb = .moore → p.inverse.getD 0 0 % 2 = 0)) := by
  cases nb <;> decide +kernel

end Neighborhood

namespace Registry

open Relabeling

variable {r : Registry} {t : Symmetry} {p : Relabeling}

lemma Sound.product_of_rotateReflect (hr : r.Sound) (ht : r.Knows t) {ways : ℤ} {a b : Direction}
    (hrec : t.neighborhood.recipe? t.name = some (.rotateReflect ways a b))
    {rotations : List Relabeling} (hrot : t.neighborhood.rotationsBy ways = .ok rotations)
    {q : Relabeling} (hq : t.neighborhood.reflectAcross a.label b.label = .ok q)
    (hp : p ∈ t.relabelings) : Product t.neighborhood.size (rotations ++ [q]) p := by
  obtain ⟨ts, hpres, hts, hnames⟩ := hr.composition_of_class ht hrec
  rw [Symmetry.relabelings_eq, hpres,
    mem_composition_iff_generators fun u hu => ⟨hr.valid u (hts u hu).1, (hts u hu).2⟩] at hp
  refine hp.mono fun g hg => ?_
  obtain ⟨u, hu, hg⟩ := List.mem_flatMap.mp hg
  obtain ⟨hknows, hnb⟩ := hts u hu
  rw [Symmetry.generators] at hg
  rcases (hnames u.name).mp ⟨u, hu, rfl⟩ with hname | hname
  · obtain ⟨rotations', hrot', hpres'⟩ := hr.rotations_of_name hknows hname
    rw [hnb, hrot, Except.ok.injEq] at hrot'
    rw [hpres', ← hrot'] at hg
    exact List.mem_append_left _ hg
  · obtain ⟨q', hq', hpres'⟩ := hr.reflection_of_name hknows (IsLabel.comma_notMem ⟨a, rfl⟩) hname
    rw [hnb, hq, Except.ok.injEq] at hq'
    rw [hpres', ← hq'] at hg
    exact List.mem_append_right _ hg

lemma Sound.product_of_reflect (hr : r.Sound) (ht : r.Knows t) {a b : Direction}
    (hrec : t.neighborhood.recipe? t.name = some (.reflect a b)) {q : Relabeling}
    (hq : t.neighborhood.reflectAcross a.label b.label = .ok q) (hp : p ∈ t.relabelings) :
    Product t.neighborhood.size [q] p := by
  obtain ⟨q', hq', hpres⟩ := hr.reflection_of_class ht hrec
  rw [hq, Except.ok.injEq] at hq'
  have hprod := Symmetry.product_of_mem_relabelings (hr.valid t ht) hp
  rwa [Symmetry.generators, hpres, ← hq'] at hprod

/-- The class that auxiliaries are measured by has turns and flips only. -/
lemma Sound.mem_turnsAndFlips (hr : r.Sound) (ht : r.Knows t)
    (hname : t.name = t.neighborhood.dihedral) (hp : p ∈ t.relabelings) :
    p ∈ t.neighborhood.turnsAndFlips := by
  have hturn : ∀ (ways : ℤ) (a b : Direction),
      t.neighborhood.recipe? t.neighborhood.dihedral = some (.rotateReflect ways a b) →
      (∃ rotations q, t.neighborhood.rotationsBy ways = .ok rotations ∧
        t.neighborhood.reflectAcross a.label b.label = .ok q ∧
        ∀ g ∈ rotations ++ [q], g ∈ t.neighborhood.turnsAndFlips) →
      p ∈ t.neighborhood.turnsAndFlips := by
    rintro ways a b hrec ⟨rotations, q, hrot, hq, hmem⟩
    exact Neighborhood.product_mem_turnsAndFlips hmem
      (hr.product_of_rotateReflect ht (hname ▸ hrec) hrot hq hp)
  have hflip : ∀ (a b : Direction),
      t.neighborhood.recipe? t.neighborhood.dihedral = some (.reflect a b) →
      (∃ q, t.neighborhood.reflectAcross a.label b.label = .ok q ∧
        ∀ g ∈ [q], g ∈ t.neighborhood.turnsAndFlips) →
      p ∈ t.neighborhood.turnsAndFlips := by
    rintro a b hrec ⟨q, hq, hmem⟩
    exact Neighborhood.product_mem_turnsAndFlips hmem
      (hr.product_of_reflect ht (hname ▸ hrec) hq hp)
  generalize t.neighborhood = nb at hturn hflip ⊢
  cases nb with
  | moore => exact hturn 8 .n .s rfl ⟨_, _, rfl, rfl, by decide +kernel⟩
  | vonNeumann => exact hturn 4 .n .s rfl ⟨_, _, rfl, rfl, by decide +kernel⟩
  | hexagonal => exact hturn 6 .se .nw rfl ⟨_, _, rfl, rfl, by decide +kernel⟩
  | oneDimensional => exact hflip .n .s rfl ⟨_, rfl, by decide +kernel⟩

/-- A type that passes for geometric has turns and flips only. -/
lemma mem_turnsAndFlips_of_geometric {r' : Registry} (hr : r.Sound)
    (h : runFrom (geometric t) r = (.ok true, r')) (hp : p ∈ t.relabelings) :
    p ∈ t.neighborhood.turnsAndFlips := by
  obtain ⟨full, r₁, hfull, h⟩ := runFrom_bind_ok.mp h
  have hkeeps := stores_named hr t.neighborhood t.neighborhood.dihedral
  have hstands := hkeeps.post full (by rw [hfull])
  have hr₁ := hkeeps.sound
  rw [hfull] at hstands hr₁
  have hname : full.name = full.neighborhood.dihedral := by
    rw [(hstands.made hr₁).label_eq, hstands.neighborhood]
    cases t.neighborhood <;> decide +kernel
  simp only [runFrom_pure, Prod.mk.injEq, Except.ok.injEq, Symmetry.subsetOf, Bool.and_eq_true,
    List.all_eq_true] at h
  have hmem := (Symmetry.contains_iff (hr₁.valid full hstands.knows)).mp (h.1.2 p hp)
  rw [← hstands.neighborhood]
  exact hr₁.mem_turnsAndFlips hstands.knows hname hmem

end Registry

namespace Rule

open Relabeling

variable {nb : Neighborhood} {p : Relabeling} {row : Row}

/-! ### Transitions that are moved -/

/-- Where a relabeling takes a direction. The center stays. -/
def movedTo (nb : Neighborhood) (p : Relabeling) (d : Direction) : Direction :=
  match nb.index? d with
  | some j => nb.directions.getD (p.inverse.getD j 0) .c
  | none => d

/-- The cell, referring to where the slot that it refers to is taken. -/
def readdressed (p : Relabeling) (c : Cell) : Cell :=
  match c.ref? with
  | some ref => c.withRef (slotFrom p.inverse ref.toNat)
  | none => c

def moved (rule : Rule) (p : Relabeling) : Rule :=
  { rule with auxiliaries := rule.auxiliaries.map fun aux =>
      { aux with
        targets := aux.targets.map (movedTo rule.neighborhood p)
        value := readdressed p aux.value } }

lemma getElem?_movedTo (hp : IsPerm nb.size p) {k : ℕ} {d : Direction}
    (h : nb.sites[k]? = some d) : nb.sites[slotFrom p.inverse k]? = some (movedTo nb p d) := by
  cases k with
  | zero =>
    cases h
    have hc : nb.index? .c = none := by cases nb <;> rfl
    rw [movedTo, hc]
    rfl
  | succ k =>
    have hk : nb.directions[k]? = some d := h
    have hindex : nb.index? d = some k := by
      have hslot := (nb.slotOf_eq_some_iff d (k + 1)).mpr h
      unfold slotOf at hslot
      split at hslot
      · cases hslot
      · obtain ⟨i, hi, hik⟩ := Option.map_eq_some_iff.mp hslot
        rwa [Nat.succ.inj hik] at hi
    have hlt := slotFrom_lt hp.inverse (k + 1) (Neighborhood.lt_of_site h)
    have hlt' : p.inverse.getD k 0 < nb.directions.length := Nat.lt_of_succ_lt_succ hlt
    rw [movedTo, hindex, slotFrom]
    dsimp only
    rw [List.getD_eq_getElem _ _ hlt']
    exact List.getElem?_eq_getElem hlt'

lemma ref?_withRef {c : Cell} {ref j : ℤ} (h : c.ref? = some ref) :
    (c.withRef j).ref? = some j := by
  cases c <;> first | rfl | cases h

lemma readdresses (hp : IsPerm nb.size p) (hrigid : Rigid nb p) {c : Cell}
    (hc : ∀ ref, c.ref? = some ref → ref.toNat < nb.sites.length) :
    (motionOf hp hrigid).Readdresses c (readdressed p c) := by
  unfold readdressed
  cases hr : c.ref? with
  | none => exact .inl ⟨hr, rfl⟩
  | some ref =>
    exact .inr ⟨ref, _, hr, ref?_withRef hr, hc ref hr, rfl, fun _ _ _ => Cell.image_withRef⟩

lemma length_rearranged {α : Type} (hp : IsPerm nb.size p) {center last : α} {napkin : List α}
    (hlen : napkin.length = nb.size) :
    (center :: p.apply napkin ++ [last]).length = (center :: napkin ++ [last]).length := by
  simp only [List.length_append, List.length_cons, hp.length_apply hlen, hlen]

lemma carries_rearranged {α : Type} (hp : IsPerm nb.size p) (hrigid : Rigid nb p) {center last : α}
    {napkin : List α} (hlen : napkin.length = nb.size) :
    (motionOf hp hrigid).Carries (center :: napkin ++ [last])
    (center :: p.apply napkin ++ [last]) := by
  intro i hi
  cases i with
  | zero => rfl
  | succ i =>
    have hi' : i < nb.size := Nat.lt_of_succ_lt_succ hi
    have hsource := slotFrom_lt hp (i + 1) hi
    have hlt : i < p.length := by rwa [hp.length]
    have hpi : p.getD i 0 < napkin.length := by
      rw [hlen]
      exact Nat.lt_of_succ_lt_succ hsource
    have hleft : (p.apply napkin ++ [last])[i]? = (p.apply napkin)[i]? :=
      List.getElem?_append_left (by rwa [hp.length_apply hlen])
    have hright : (napkin ++ [last])[p.getD i 0]? = napkin[p.getD i 0]? :=
      List.getElem?_append_left hpi
    change (p.apply napkin ++ [last])[i]? = (napkin ++ [last])[p.getD i 0]?
    rw [hleft, hright, getElem?_apply (hp.lt_length hlen), List.getD_eq_getElem _ _ hlt,
      List.getElem?_eq_getElem hlt]
    rfl

lemma moved_wellLaid {rule : Rule} (hlaid : rule.WellLaid)
    (hp : IsPerm rule.neighborhood.size p) : (rule.moved p).WellLaid := by
  refine ⟨hlaid.length, hlaid.cells, ?_, ?_, ?_⟩ <;> intro aux' haux' <;>
    obtain ⟨aux, haux, rfl⟩ := List.mem_map.mp haux'
  · have hproper := hlaid.values aux haux
    unfold readdressed
    cases hr : aux.value.ref? with
    | none => exact hproper
    | some ref => exact proper_of_ref (ref?_withRef hr)
  · intro ref' hr'
    unfold readdressed at hr'
    cases hr : aux.value.ref? with
    | none =>
      simp only [hr] at hr'
      cases hr'
    | some ref =>
      simp only [hr, ref?_withRef hr, Option.some.injEq] at hr'
      rw [← hr', Int.toNat_natCast]
      exact slotFrom_lt hp.inverse _ (hlaid.refs aux haux ref hr)
  · intro target' htarget'
    obtain ⟨target, htarget, rfl⟩ := List.mem_map.mp htarget'
    obtain ⟨k, hk⟩ := List.mem_iff_getElem?.mp (hlaid.targets aux haux target htarget)
    exact List.mem_of_getElem? (getElem?_movedTo hp hk)

/-- The tuples of all auxiliary rows together. -/
lemma exists_matches_auxiliaryRows {rule : Rule} {s s' s₀ : Scope} {n : ℤ} {names : NameSource}
    {out : List Row} (hlaid : rule.WellLaid) (hrow : row.Proper)
    (hlen : row.length = rule.cells.length) (hcreate : Scope.create n names = .ok s₀)
    (hscope : s₀.Extends s) (h : runFrom (rule.auxiliaryRows row) s = (.ok out, s'))
    (tuple : List ℤ) :
    (∃ r ∈ out, r.Matches tuple) ↔ ∃ aux ∈ rule.auxiliaries, ∃ target ∈ aux.targets,
      ∃ choice, Foreseen rule.neighborhood row n aux.value target choice tuple := by
  obtain ⟨parts, rfl, hparts⟩ := auxiliaryRows_ok hlaid hrow hlen hcreate hscope h
  rw [List.flatten_flatten, ← Cell.exists_mem_flatten
    (List.forall₂_map_right_iff.mpr (hparts.imp ?_))]
  intro aux part hpart
  exact Cell.exists_mem_flatten (hpart.imp fun target rows hrows => (hrows tuple).symm)

lemma foreseen_moved_iff (hp : IsPerm nb.size p) (hrigid : Rigid nb p) {n : ℤ} {value : Cell}
    (hvalue : ∀ ref, value.ref? = some ref → ref.toNat < nb.sites.length) {target : Direction}
    (htarget : target ∈ nb.sites) {choice : ℤ → ℕ} {initial next : Value} {neighbors : Row}
    (hneighbors : neighbors.length = nb.size) {center result : ℤ} {napkin : List ℤ}
    (hnapkin : napkin.length = nb.size) :
    Foreseen nb (initial :: p.apply neighbors ++ [next]) n (readdressed p value)
        (movedTo nb p target) choice (center :: p.apply napkin ++ [result]) ↔
      Foreseen nb (initial :: neighbors ++ [next]) n value target choice
        (center :: napkin ++ [result]) := by
  obtain ⟨i, hi⟩ := List.mem_iff_getElem?.mp htarget
  have hlt := Neighborhood.lt_of_site hi
  have hi' := getElem?_movedTo hp hi
  have hrow : (motionOf hp hrigid).Carries (initial :: neighbors ++ [next])
      (initial :: p.apply neighbors ++ [next]) := carries_rearranged hp hrigid hneighbors
  have htuple : (motionOf hp hrigid).Carries (center :: napkin ++ [result])
      (center :: p.apply napkin ++ [result]) := carries_rearranged hp hrigid hnapkin
  have hread := readdresses hp hrigid hvalue
  have hlen : (center :: p.apply napkin ++ [result]).length =
      (center :: napkin ++ [result]).length := length_rearranged hp hnapkin
  have hlast : (center :: p.apply napkin ++ [result])[nb.sites.length]? =
      (center :: napkin ++ [result])[nb.sites.length]? := by
    have hsites : nb.sites.length = nb.size + 1 := rfl
    have hat : ∀ l : List ℤ, l.length = nb.size →
        (center :: l ++ [result])[nb.size + 1]? = some result := by
      intro l hl
      rw [← hl, List.cons_append, List.getElem?_cons_succ, List.getElem?_concat_length]
    rw [hsites, hat _ (hp.length_apply hnapkin), hat _ hnapkin]
  constructor
  · refine Foreseen.carry hrow.symm htuple.symm hlen.symm hlast.symm hi' ?_ hread.symm
    have hback : (motionOf hp hrigid).symm.image (slotFrom p.inverse i) = i :=
      (motionOf hp hrigid).source_image i hlt
    rw [hback, hi]
  · exact Foreseen.carry hrow htuple hlen hlast hi hi' hread

lemma proper_rearranged {initial next : Value} {neighbors : Row}
    (h : Row.Proper (initial :: neighbors ++ [next])) :
    Row.Proper (initial :: p.apply neighbors ++ [next]) := by
  have hmem : ∀ v ∈ initial :: p.apply neighbors ++ [next],
      v ∈ initial :: neighbors ++ [next] := by
    intro v hv
    simp only [List.cons_append, List.mem_cons, List.mem_append, List.not_mem_nil, or_false] at hv ⊢
    rcases hv with hv | hv | hv
    · exact .inl hv
    · exact .inr (.inl (Symmetry.mem_of_mem_apply hv))
    · exact .inr (.inr hv)
  exact ⟨fun s d o hs => h.drawn s d o (hmem _ hs), fun v o hv => h.several v o (hmem _ hv),
    fun v w o hv hw => h.same v w o (hmem _ hv) (hmem _ hw)⟩

lemma onRegistry_ok {α : Type} {act : RegistryM α} {w w' : Workspace} {a : α}
    (h : runFrom (WorkspaceM.onRegistry act) w = (.ok a, w')) :
    runFrom act w.registry = (.ok a, w'.registry) := by
  obtain ⟨ha, rfl⟩ := Prod.mk.inj h
  exact Prod.ext ha rfl

lemma registry_onScope {α : Type} {act : ScopeM α} {w w' : Workspace} {a : α}
    (h : runFrom (WorkspaceM.onScope act) w = (.ok a, w')) : w'.registry = w.registry := by
  rw [runFrom_onScope, Prod.mk.injEq] at h
  rw [← h.2]

/-- A rule has auxiliaries only if its symmetry has passed for geometric. -/
lemma layOut_geometric {symmetry : Symmetry} {t : Transition} {w w' : Workspace} {rule : Rule}
    (h : runFrom (layOut nb symmetry t) w = (.ok rule, w')) (hne : rule.auxiliaries ≠ []) :
    rule.symmetry = symmetry ∧ rule.neighborhood = nb ∧
      ∃ r, runFrom (Registry.geometric symmetry) w.registry = (.ok true, r) := by
  obtain ⟨initial, w₁, hinitial, h⟩ := runFrom_bind_ok.mp h
  obtain ⟨neighbors, w₂, hneighbors, h⟩ := runFrom_bind_ok.mp h
  obtain ⟨result, w₃, hresult, h⟩ := runFrom_bind_ok.mp h
  obtain ⟨auxiliaries, w₄, haux, h⟩ := runFrom_bind_ok.mp h
  cases h
  refine ⟨rfl, rfl, ?_⟩
  cases hlist : t.auxiliaries with
  | nil =>
    rw [hlist] at haux
    cases haux
    exact absurd rfl hne
  | cons a rest =>
    rw [hlist] at haux
    obtain ⟨aux, w₅, rest', ha, -⟩ := runFrom_mapM_cons.mp haux
    obtain ⟨geometric, w₆, hgeometric, ha⟩ := runFrom_bind_ok.mp ha
    have hrun := onRegistry_ok hgeometric
    rw [registry_onScope hresult, registry_onScope hneighbors, registry_onScope hinitial] at hrun
    cases geometric with
    | false => cases ha
    | true => exact ⟨_, hrun⟩

lemma build_geometric {nb : Option Neighborhood} {symmetry : Option Symmetry} {t : Transition}
    {w w' : Workspace} {rule : Rule} (hr : w.registry.Sound)
    (h : runFrom (build nb symmetry t) w = (.ok rule, w')) (hne : rule.auxiliaries ≠ [])
    (hp : p ∈ rule.symmetry.relabelings) : p ∈ rule.symmetry.neighborhood.turnsAndFlips := by
  obtain ⟨nb, symmetry, w₁, -, h, hw⟩ := build_ok h
  have hr₁ : w₁.registry.Sound := by
    obtain ⟨-, rfl⟩ | ⟨-, hnone⟩ := hw
    · exact hr
    · have hkeeps := (Registry.keeps_none hr nb).sound
      rwa [onRegistry_ok hnone] at hkeeps
  obtain ⟨rfl, -, r, hgeometric⟩ := layOut_geometric h hne
  exact Registry.mem_turnsAndFlips_of_geometric hr₁ hgeometric hp

lemma auxiliaryRows_nil {rule : Rule} {s s' : Scope} {out : List Row} (h : rule.auxiliaries = [])
    (hout : runFrom (rule.auxiliaryRows row) s = (.ok out, s')) : out = [] := by
  unfold auxiliaryRows at hout
  rw [h] at hout
  cases hout
  rfl

lemma exists_center_last {α : Type} {xs : List α} {k : ℕ} (h : xs.length = k + 2) :
    ∃ center napkin last, xs = center :: napkin ++ [last] ∧ napkin.length = k := by
  cases xs with
  | nil => cases h
  | cons center rest =>
    have hrest : rest.length = k + 1 := Nat.succ.inj h
    have hne : rest ≠ [] := List.length_pos_iff.mp (by omega)
    refine ⟨center, rest.dropLast, rest.getLast hne, ?_, ?_⟩
    · rw [List.cons_append, List.dropLast_append_getLast]
    · rw [List.length_dropLast, hrest, Nat.add_sub_cancel]

/-- **Auxiliaries move along.** Take a transition with auxiliaries that is accepted under its
symmetry and a relabeling of the symmetry; among eight neighbors, one that takes sides to sides. If
the neighbors of a row are rearranged, and with them the cells that the auxiliaries change and the
slots that they refer to, then the auxiliary rows stand for the same tuples, with their neighbors
rearranged. -/
theorem auxiliaryRows_moved {nb : Option Neighborhood} {symmetry : Option Symmetry} {t : Transition}
    {w w' : Workspace} {rule : Rule} {s s' s₀ s₁ s₁' s₂ s₂' : Scope} {n : ℤ} {names : NameSource}
    {rows out out' : List Row} {initial next : Value} {neighbors : Row} {p : Relabeling}
    (hr : w.registry.Reachable) (hbuild : runFrom (build nb symmetry t) w = (.ok rule, w'))
    (hnb : rule.symmetry.neighborhood = rule.neighborhood)
    (hexpand : runFrom (Cell.expand rule.cells rule.span) s = (.ok rows, s'))
    (hrow : initial :: neighbors ++ [next] ∈ rows) (hp : p ∈ rule.symmetry.relabelings)
    (hside : rule.neighborhood = .moore → p.inverse.getD 0 0 % 2 = 0)
    (hcreate : Scope.create n names = .ok s₀) (hscope : s₀.Extends s₁) (hscope' : s₀.Extends s₂)
    (hout : runFrom (rule.auxiliaryRows (initial :: neighbors ++ [next])) s₁ = (.ok out, s₁'))
    (hout' : runFrom ((rule.moved p).auxiliaryRows (initial :: p.apply neighbors ++ [next])) s₂ =
      (.ok out', s₂')) (tuple : List ℤ) :
    (∃ r ∈ out', r.Matches tuple) ↔ ∃ center napkin result,
      tuple = center :: p.apply napkin ++ [result] ∧
        ∃ r ∈ out, r.Matches (center :: napkin ++ [result]) := by
  have hlaid := build_wellLaid hbuild
  obtain ⟨hproper, hlen⟩ := Cell.expand_proper hlaid.cells hexpand _ hrow
  have hsize : neighbors.length = rule.neighborhood.size := by
    rw [hlaid.length] at hlen
    simpa [Neighborhood.sites, Neighborhood.size] using hlen
  by_cases hne : rule.auxiliaries = []
  · have hempty := auxiliaryRows_nil hne hout
    have hempty' := auxiliaryRows_nil (by rw [moved, hne]; rfl) hout'
    simp [hempty, hempty']
  -- from here on the symmetry has passed for geometric, so the relabeling is a motion
  have hturn := build_geometric hr.sound hbuild hne hp
  rw [hnb] at hturn
  have hperm := Neighborhood.isPerm_of_turnsAndFlips _ p hturn
  have hrigid := (Neighborhood.rigid_iff_of_turnsAndFlips _ p hturn).mpr hside
  have hlen' : (initial :: p.apply neighbors ++ [next]).length = (rule.moved p).cells.length := by
    have hcells : (rule.moved p).cells = rule.cells := rfl
    rw [hcells, ← hlen, length_rearranged hperm hsize]
  rw [exists_matches_auxiliaryRows (moved_wellLaid hlaid hperm) (proper_rearranged hproper) hlen'
    hcreate hscope' hout']
  simp only [exists_matches_auxiliaryRows hlaid hproper hlen hcreate hscope hout]
  constructor
  · rintro ⟨aux', haux', target', htarget', choice, h⟩
    obtain ⟨aux, haux, rfl⟩ := List.mem_map.mp haux'
    obtain ⟨target, htarget, rfl⟩ := List.mem_map.mp htarget'
    obtain ⟨center, napkin, result, rfl, hnapkin⟩ := exists_center_last h.size
    have hback := hperm.apply_inverse hnapkin
    refine ⟨center, p.inverse.apply napkin, result, by rw [hback], aux, haux, target, htarget,
      choice, ?_⟩
    rw [← foreseen_moved_iff hperm hrigid (hlaid.refs aux haux)
      (hlaid.targets aux haux target htarget)
      hsize (hperm.inverse.length_apply hnapkin), hback]
    exact h
  · rintro ⟨center, napkin, result, rfl, aux, haux, target, htarget, choice, h⟩
    have hnapkin : napkin.length = rule.neighborhood.size := by
      have := h.size
      simpa [Neighborhood.sites, Neighborhood.size] using this
    refine ⟨_, List.mem_map_of_mem haux, _, List.mem_map_of_mem htarget, choice, ?_⟩
    exact (foreseen_moved_iff hperm hrigid (hlaid.refs aux haux)
      (hlaid.targets aux haux target htarget)
      hsize hnapkin).mpr h

/-! The transition that changes its eastern neighbor, mirrored. -/

def mirrored : Symmetry :=
  { name := "reflect", neighborhood := .oneDimensional, presentation := .generated [[1, 0]] }

def pushingEitherWay : Rule := { pushingRule with symmetry := mirrored }

def pushedWestRow (k next index : ℤ) : Row :=
  [.state k (some ⟨ternary, k⟩) 0, .free ternary 1, .state k (some ⟨ternary, k⟩) 2,
    .state next (some ⟨{ name := "", states := [2, 1], anonymous := true }, index⟩) 3]

def live : Value := .free { name := "live", states := [1, 2] } 1

theorem auxiliaryRows_moved_pushing :
    (runFrom (build (some .oneDimensional) (some mirrored) pushing)
        { scope := ternaryStart }).1 = .ok pushingEitherWay ∧
      mirrored.relabelings = [[0, 1], [1, 0]] ∧
      (runFrom (pushingEitherWay.auxiliaryRows
        (.free ternary 0 :: [live, .free ternary 0] ++ [live]))
        ternaryStart).1 = .ok [pushedRow 0 2 0, pushedRow 1 1 1, pushedRow 2 1 1] ∧
      ∀ tuple, (∃ r ∈ [pushedWestRow 0 2 0, pushedWestRow 1 1 1, pushedWestRow 2 1 1],
          r.Matches tuple) ↔
        ∃ center napkin result, tuple = center :: Relabeling.apply [1, 0] napkin ++ [result] ∧
          ∃ r ∈ [pushedRow 0 2 0, pushedRow 1 1 1, pushedRow 2 1 1],
            r.Matches (center :: napkin ++ [result]) := by
  have hbuild : (runFrom (build (some .oneDimensional) (some mirrored) pushing)
      { scope := ternaryStart }).1 = .ok pushingEitherWay := by cbv
  have hmembers : mirrored.relabelings = [[0, 1], [1, 0]] := by cbv
  have hmem : [1, 0] ∈ mirrored.relabelings := hmembers ▸ by decide
  have hexpand : runFrom (Cell.expand pushingEitherWay.cells pushingEitherWay.span) ternaryStart =
      (.ok [.free ternary 0 :: [live, .free ternary 0] ++ [live]], ternaryStart) := by cbv
  have hout : (runFrom (pushingEitherWay.auxiliaryRows
      (.free ternary 0 :: [live, .free ternary 0] ++ [live])) ternaryStart).1 =
      .ok [pushedRow 0 2 0, pushedRow 1 1 1, pushedRow 2 1 1] := by cbv
  have hout' : (runFrom ((pushingEitherWay.moved [1, 0]).auxiliaryRows
      (.free ternary 0 :: Relabeling.apply [1, 0] [live, .free ternary 0] ++ [live]))
      ternaryStart).1 = .ok [pushedWestRow 0 2 0, pushedWestRow 1 1 1, pushedWestRow 2 1 1] := by
    cbv
  have hstart : Registry.Reachable {} := .start
  have hcreate : Scope.create 3 (.ofSeed 0) = .ok ternaryStart := rfl
  refine ⟨hbuild, hmembers, hout, fun tuple => ?_⟩
  exact auxiliaryRows_moved hstart (Prod.ext hbuild rfl)
    rfl hexpand List.mem_cons_self hmem (by decide)
    hcreate (.refl _) (.refl _) (Prod.ext hout rfl) (Prod.ext hout' rfl) tuple

end Rule

end RuleTable
