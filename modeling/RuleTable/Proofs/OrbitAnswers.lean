import RuleTable.Proofs.Caching
import RuleTable.Proofs.Meanings

/-!
What is answered about orbits, with any cache.

The orbit of a row under a freely permuting type is not worked out from its relabelings, but by
filling its groups with their values. Each filling comes up once, because orderings of the values of
one group differ within it and all groups before it are left as they are. The least text of an orbit
tells orbits apart if the type is a group.
-/

namespace RuleTable

open Relabeling

/-! ### Each filling once -/

section

variable {n k : ℕ} {l g c : List ℕ} {groups contents rows : List (List ℕ)}

/-- The rows differ at a position outside the groups. -/
def Apart (groups : List (List ℕ)) (row row' : List ℕ) : Prop :=
  ∃ i, i ∉ groups.flatten ∧ row[i]? ≠ row'[i]?

lemma apart_place {row values values' : List ℕ} (hg : Groups.Valid n (g :: groups))
    (hlen : row.length = n) (hv : values.length = g.length) (hv' : values'.length = g.length)
    (hne : values ≠ values') : Apart groups (place row g values) (place row g values') := by
  obtain ⟨hd, hlt, hdis, -⟩ := hg.cons
  have hrow : ∀ i ∈ g, i < row.length := hlen ▸ hlt
  by_contra hsame
  unfold Apart at hsame
  push Not at hsame
  refine hne ?_
  calc values = apply g (place row g values) := (apply_place hd hrow hv).symm
    _ = apply g (place row g values') := apply_congr fun i hi => hsame i (hdis i hi)
    _ = values' := apply_place hd hrow hv'

/-- **One group.** Rows that can be told apart outside it and the groups to come give fillings of it
that can be told apart outside the groups to come. -/
lemma pairwise_fill (hg : Groups.Valid n (g :: groups)) (hc : c.length = g.length)
    (hsorted : c.Pairwise (· ≤ ·)) (hlen : ∀ row ∈ rows, row.length = n)
    (h : rows.Pairwise (Apart (g :: groups))) :
    (rows.flatMap fun row => (arrangements c.length c).map (place row g)).Pairwise
      (Apart groups) := by
  have hvalues : ∀ values ∈ arrangements c.length c, values.length = g.length :=
    fun values hv => ((mem_arrangements rfl).mp hv).length_eq.trans hc
  refine List.pairwise_flatMap.mpr ⟨fun row hrow => ?_, h.imp ?_⟩
  · refine List.pairwise_map.mpr (((pairwise_arrangements hsorted).imp ne_of_lt).imp_of_mem ?_)
    intro values values' hv hv' hne
    exact apart_place hg (hlen row hrow) (hvalues _ hv) (hvalues _ hv') hne
  · rintro row row' ⟨i, hi, hne⟩ x hx y hy
    obtain ⟨values, -, rfl⟩ := List.mem_map.mp hx
    obtain ⟨values', -, rfl⟩ := List.mem_map.mp hy
    rw [List.flatten_cons, List.mem_append, not_or] at hi
    refine ⟨i, hi.2, ?_⟩
    rwa [getElem?_place_of_notMem hi.1, getElem?_place_of_notMem hi.1]

/-- **All groups.** -/
lemma nodup_fold (hg : Groups.Valid n groups)
    (hc : List.Forall₂ (fun g c => c.length = g.length) groups contents)
    (hsorted : ∀ c ∈ contents, c.Pairwise (· ≤ ·)) (hlen : ∀ row ∈ rows, row.length = n)
    (h : rows.Pairwise (Apart groups)) :
    ((groups.zip contents).foldl (fun rows (positions, values) =>
      rows.flatMap fun row => (arrangements values.length values).map (place row positions))
      rows).Nodup := by
  induction hc generalizing rows with
  | nil =>
    refine h.imp ?_
    rintro row _ ⟨i, -, hne⟩ rfl
    exact hne rfl
  | @cons g c groups contents hgc hc ih =>
    rw [List.forall_mem_cons] at hsorted
    refine ih hg.cons.2.2.2 hsorted.2 ?_ (pairwise_fill hg hgc hsorted.1 hlen h)
    simp only [List.mem_flatMap, List.mem_map]
    rintro _ ⟨row, hrow, values, -, rfl⟩
    rw [length_place, hlen row hrow]

lemma nodup_freeImages {row : List ℕ} (hg : Groups.Valid n groups) (hlen : row.length = n) :
    (Symmetry.freeImages groups (groups.map fun g => (apply g row).mergeSort) row).Nodup := by
  refine nodup_fold hg ?_ ?_ (by simpa using hlen) (List.pairwise_singleton _ _)
  · rw [List.forall₂_map_right_iff, List.forall₂_same]
    intro g hmem
    rw [List.length_mergeSort]
    exact length_apply fun i hi => hlen ▸ hg.lt i (List.mem_flatten.mpr ⟨g, hmem, hi⟩)
  · intro c hc
    obtain ⟨g, -, rfl⟩ := List.mem_map.mp hc
    exact List.pairwise_mergeSort' (· ≤ ·) _

lemma frontFirst_of_mem {row : List ℕ} (h : row ∈ rows) :
    frontFirst rows row = row :: rows.erase row :=
  if_pos (List.contains_iff_mem.mpr h)

lemma nodup_frontFirst {row : List ℕ} (h : rows.Nodup) : (frontFirst rows row).Nodup := by
  unfold frontFirst
  split
  · exact List.nodup_cons.mpr ⟨h.not_mem_erase, h.erase row⟩
  · exact h

end

namespace Symmetry

variable {t : Symmetry} {ids : List ℕ}

/-- **The orbit of a row under a freely permuting type** starts with the row and has no repeats. -/
lemma orbit_free (hv : t.Valid) (hfree : t.isFree = true) (hlen : ids.length = t.neighborhood.size)
    {rows : List (List ℕ)} (hrun : runFrom (t.orbit ids) none = (.ok rows, none)) :
    rows.Nodup ∧ rows.head? = some ids := by
  obtain ⟨groups, hgr⟩ := Option.isSome_iff_exists.mp hfree
  have hg := valid_groups hv hgr
  unfold orbit at hrun
  simp only [hgr, held_eq fun i hi => hlen ▸ hg.lt i hi, runFrom_bind, runFrom_cached_none,
    List.map_map] at hrun
  cases hrun
  refine ⟨nodup_frontFirst (nodup_freeImages hg hlen), ?_⟩
  exact congrArg List.head? (frontFirst_of_mem ((mem_freeImages hg hlen).mpr (.refl _ _)))

end Symmetry

/-! ### Which types permute freely -/

namespace Registry

variable {r r' : Registry} {nb : Neighborhood} {t : Symmetry}

/-- What is asked for permutes positions freely: some directions, all of them by the name of the
class, or what types that do so generate. -/
inductive AsksFree (r : Registry) : RegistryM Symmetry → Prop
  | permute (nb : Neighborhood) (labels : List String) : AsksFree r (permute nb labels)
  | named (nb : Neighborhood) {name : String} (h : Text.lower (Text.trim name) = "permute") :
    AsksFree r (named nb name)
  | compose {ts : List Symmetry} (h : ∀ t ∈ ts, r.Knows t ∧ t.isFree = true) :
    AsksFree r (compose ts)

lemma free_permute (hr : r.Sound) (nb : Neighborhood) (labels : List String) :
    Keeps r (permute nb labels) fun r' t => r'.Knows t ∧ t.isFree = true := by
  refine (stores_permute hr nb labels).imp ?_
  rintro r' t - hr' ⟨positions, hpos, ht⟩
  obtain ⟨hsorted, hlt⟩ := Neighborhood.positions_spec hpos
  exact ⟨ht.knows, isFree_iff.mpr ⟨_, (ht.made hr').permutation hsorted hlt⟩⟩

lemma free_named (hr : r.Sound) (nb : Neighborhood) {name : String}
    (hname : Text.lower (Text.trim name) = "permute") :
    Keeps r (named nb name) fun r' t => r'.Knows t ∧ t.isFree = true := by
  refine (stores_named hr nb name).imp fun r' t _ hr' ht => ⟨ht.knows, ?_⟩
  rw [hname] at ht
  have htype : t.name = permuteName t.neighborhood (List.range t.neighborhood.size) := by
    rw [permuteName, if_pos List.length_range, (ht.made hr').label_eq]
    decide
  exact isFree_iff.mpr ⟨_, hr'.permutation_of_name ht.knows List.pairwise_lt_range
    (fun i hi => List.mem_range.mp hi) htype⟩

/-- The stored composition may have been made of other types, but their names were the same. -/
lemma free_compose (hr : r.Sound) {ts : List Symmetry}
    (hts : ∀ t ∈ ts, r.Knows t ∧ t.isFree = true) :
    Keeps r (compose ts) fun r' t => r'.Knows t ∧ t.isFree = true := by
  refine keeps_common hr fun nb hne' hnb => ?_
  refine (stores_compose hr fun t ht => ⟨(hts t ht).1, hnb t ht⟩).imp ?_
  rintro r' t hext hr' (rfl | ht)
  · obtain ⟨hk, hfree⟩ := hts t List.mem_cons_self
    exact ⟨hk.mono hext, hfree⟩
  · obtain ⟨us, hne, hus, hnames, hp⟩ := (ht.made hr').composed
    have hts' : ∀ t ∈ ts, r'.Knows t ∧ t.neighborhood = nb :=
      fun t ht => ⟨(hts t ht).1.mono hext, hnb t ht⟩
    have hmatched := (inherited_equallyFree r' r').matched hr' hr' hts' hus hne' hne hnames.symm
    refine ⟨ht.knows, isFree_iff.mpr (hp ▸ free_composition_iff.mpr ?_)⟩
    exact hmatched.free_of_free fun t ht => (hts t ht).2

/-- What asks for a freely permuting type gets one, known to a registry made by requests. -/
lemma AsksFree.grants {act : RegistryM Symmetry} (h : AsksFree r act) (hr : r.Reachable)
    (hrun : runFrom act r = (.ok t, r')) : r'.Reachable ∧ r'.Knows t ∧ t.isFree = true := by
  obtain rfl : (runFrom act r).2 = r' := by rw [hrun]
  have hok : (runFrom act r).1 = .ok t := by rw [hrun]
  cases h with
  | permute nb labels =>
    exact ⟨hr.ask (.permute nb labels) (List.forall_mem_nil _) rfl,
      (free_permute hr.sound nb labels).post t hok⟩
  | @named nb name hname =>
    exact ⟨hr.ask (.named nb name) (List.forall_mem_nil _) rfl,
      (free_named hr.sound nb hname).post t hok⟩
  | @compose ts hts =>
    exact ⟨hr.ask (.compose ts) (fun t ht => (hts t ht).1) rfl,
      (free_compose hr.sound hts).post t hok⟩

/-! ### Orbits and their texts -/

open OrbitCall (Served)

variable {cache cache' : Option OrbitCache}

/-- **Orbits of freely permuting types.** Permutations of any directions, the class of all of them
and compositions of such types permute groups of positions freely. The orbit of a row under a type
that does so starts with the row, has no repeats, and has the rows that its relabelings make of the
row; a cache that is in use changes nothing about it. -/
theorem orbit_of_freely_permuting (hr : r.Reachable) :
    (∀ act t r', AsksFree r act → runFrom act r = (.ok t, r') →
      r'.Reachable ∧ r'.Knows t ∧ t.isFree = true) ∧
    ∀ t, r.Knows t → t.isFree = true → ∀ (ids : List ℕ) (cache : Option OrbitCache),
      ids.length = t.neighborhood.size → Served r cache →
      ∃ rows, (runFrom (t.orbit ids) cache).1 = .ok rows ∧ rows.Nodup ∧ rows.head? = some ids ∧
        ∀ row, row ∈ rows ↔ ∃ p ∈ t.relabelings, p.relabel? ids = some row := by
  refine ⟨fun act t r' hact => hact.grants hr, fun t ht hfree ids cache hlen hcache => ?_⟩
  have hv := hr.sound.valid t ht
  obtain ⟨rows, hrun, hrows⟩ := Symmetry.orbit_ok hv hlen
  obtain ⟨hnodup, hhead⟩ := Symmetry.orbit_free hv hfree hlen hrun
  have htrans := Symmetry.transparent_orbit hv (hr.sound.knownTo ht) ids
  have hans : (runFrom (t.orbit ids) cache).1 = .ok rows := by
    rw [(htrans.some cache (hcache.fits hr.sound)).1, hrun]
  refine ⟨rows, hans, hnodup, hhead, fun row => (hrows row).trans ?_⟩
  refine exists_congr fun p => and_congr_right fun hp => ?_
  rw [(Symmetry.isPerm_of_mem hv hp).relabel? hlen, Option.some.injEq]

/-- Two permutations that share a direction, composed; the orbit is served from what was stored for
another row with the same contents. -/
theorem orbit_of_overlapping_permutations : ∃ a b t r₁ r₂ r,
    runFrom (permute .vonNeumann ["N", "E"]) {} = (.ok a, r₁) ∧
    runFrom (permute .vonNeumann ["E", "S"]) r₁ = (.ok b, r₂) ∧
    runFrom (compose [a, b]) r₂ = (.ok t, r) ∧
    ∃ rows, (runFrom (t.orbit [2, 0, 1, 0])
        (runFrom (t.expand [0, 1, 2, 0] toString) (some (.ofCapacity 1))).2).1 = .ok rows ∧
      rows.Nodup ∧ rows.head? = some [2, 0, 1, 0] ∧
      ∀ row, row ∈ rows ↔ ∃ p ∈ t.relabelings, p.relabel? [2, 0, 1, 0] = some row := by
  have hsucc : ∀ r labels, (Neighborhood.vonNeumann.positions labels).isOk = true →
      Succeeds r (permute .vonNeumann labels) :=
    fun r labels h => (Succeeds.failing h).bind fun _ _ _ => .memo ⟨_, _, rfl⟩
  obtain ⟨a, r₁, ha⟩ := hsucc {} ["N", "E"] rfl
  obtain ⟨b, r₂, hb⟩ := hsucc r₁ ["E", "S"] rfl
  obtain ⟨hr₁, hka, hfa⟩ := (orbit_of_freely_permuting .start).1 _ _ _ (.permute _ _) ha
  obtain ⟨hr₂, hkb, hfb⟩ := (orbit_of_freely_permuting hr₁).1 _ _ _ (.permute _ _) hb
  have hext : r₁.Extends r₂ := by
    have h := (keeps_permute hr₁.sound .vonNeumann ["E", "S"]).grows
    rwa [hb] at h
  have hnb : ∀ {r r' : Registry} {t labels}, r.Sound →
      runFrom (permute .vonNeumann labels) r = (.ok t, r') → t.neighborhood = .vonNeumann := by
    intro r r' t labels hr hrun
    obtain ⟨_, -, h⟩ := (stores_permute hr .vonNeumann labels).post t (by rw [hrun])
    exact h.neighborhood
  have hparts : ∀ u ∈ [a, b], r₂.Knows u ∧ u.isFree = true := by
    simp [hka.mono hext, hfa, hkb, hfb]
  have hparts' : ∀ u ∈ [a, b], u.neighborhood = .vonNeumann := by
    simp [hnb sound_empty ha, hnb hr₁.sound hb]
  obtain ⟨t, r, ht⟩ := succeeds_compose (r := r₂) (List.cons_ne_nil a [b]) hparts'
  obtain ⟨hr, hkt, hft⟩ := (orbit_of_freely_permuting hr₂).1 _ _ _ (.compose hparts) ht
  have hnbt : t.neighborhood = .vonNeumann := by
    rcases (stores_compose hr₂.sound fun u hu => ⟨(hparts u hu).1, hparts' u hu⟩).post t
      (by rw [ht]) with h | h
    · cases h
    · exact h.neighborhood
  refine ⟨a, b, t, r₁, r₂, r, ha, hb, ht, ?_⟩
  refine (orbit_of_freely_permuting hr).2 t hkt hft _ _ (by rw [hnbt]; rfl) ?_
  exact .after (.new 1) (.expand t [0, 1, 2, 0] toString) (by rintro _ ⟨⟩; exact hkt)

/-- **Canonical texts tell orbits apart.** Under a type that is closed under following one
relabeling by another, and so under undoing them, two napkins have the same canonical text exactly
if some relabeling takes the keys of one to those of the other. The caches may be any in use. -/
theorem canonicalKey_tells_orbits {α : Type} (hr : r.Reachable) (ht : r.Knows t)
    (hclosed : ∀ p ∈ t.relabelings, ∀ q ∈ t.relabelings, p.andThen q ∈ t.relabelings)
    {x y : List α} {key : α → String} (hx : x.length = t.neighborhood.size)
    (hy : y.length = t.neighborhood.size) (hkx : ∀ v ∈ x, '\x1f' ∉ (key v).toList)
    (hky : ∀ v ∈ y, '\x1f' ∉ (key v).toList) (hcache : Served r cache) (hcache' : Served r cache') :
    ∃ kx ky, (runFrom (t.canonicalKey x key) cache).1 = .ok kx ∧
      (runFrom (t.canonicalKey y key) cache').1 = .ok ky ∧
      (kx = ky ↔ ∃ p ∈ t.relabelings, p.relabel? (x.map key) = some (y.map key)) := by
  have hv := hr.sound.valid t ht
  have hgroup : IsGroup t.neighborhood.size t.relabelings :=
    ⟨fun p hp => Symmetry.isPerm_of_mem hv hp, Symmetry.identity_mem hv, hclosed⟩
  have htrans := fun z => Symmetry.transparent_canonicalKey hv (hr.sound.knownTo ht) z key
  obtain ⟨textsx, hrunx, -⟩ := Symmetry.canonicalKey_ok hv hx key
  obtain ⟨textsy, hruny, -⟩ := Symmetry.canonicalKey_ok hv hy key
  refine ⟨Symmetry.least textsx, Symmetry.least textsy, ?_, ?_, ?_⟩
  · rw [((htrans x).some cache (hcache.fits hr.sound)).1, hrunx]
  · rw [((htrans y).some cache' (hcache'.fits hr.sound)).1, hruny]
  · refine (Symmetry.canonicalKey_eq_iff hv hgroup hx hy hkx hky hrunx hruny).trans ?_
    refine exists_congr fun p => and_congr_right fun hp => ?_
    rw [(Symmetry.isPerm_of_mem hv hp).relabel? (by rwa [List.length_map]), Option.some.injEq]

/-- A turned napkin, asked about with the cache that the first has been stored in and one that is
new. -/
theorem canonicalKey_of_turned : ∃ t r, runFrom (rotate .vonNeumann 4) {} = (.ok t, r) ∧
    ∃ kx ky, (runFrom (t.canonicalKey ["a", "b", "", "b"] id)
        (runFrom (t.expand ["a", "b", "", "b"] id) (some (.ofCapacity 1))).2).1 = .ok kx ∧
      (runFrom (t.canonicalKey ["b", "a", "b", ""] id) (some (.ofCapacity 0))).1 = .ok ky ∧
      (kx = ky ↔ ∃ p ∈ t.relabelings,
        p.relabel? (["a", "b", "", "b"].map id) = some (["b", "a", "b", ""].map id)) := by
  obtain ⟨t, r, hrun⟩ : Succeeds {} (rotate .vonNeumann 4) := succeeds_rotate rfl
  have hr : r.Reachable :=
    Reachable.ask .start (.rotate .vonNeumann 4) (List.forall_mem_nil _) (congrArg Prod.snd hrun)
  obtain ⟨ht, hnb, hc⟩ : Yields .vonNeumann True r t := by
    have h := (keeps_rotate sound_empty .vonNeumann 4).post t (by rw [hrun])
    rwa [hrun] at h
  have hgroup := Symmetry.isGroup (hr.sound.valid t ht) (hc trivial)
  refine ⟨t, r, hrun, canonicalKey_tells_orbits hr ht hgroup.mul (by rw [hnb]; rfl)
    (by rw [hnb]; rfl) (by decide) (by decide) ?_ (.new 0)⟩
  exact .after (.new 1) (.expand t ["a", "b", "", "b"] id) (by rintro _ ⟨⟩; exact ht)

end Registry

end RuleTable
