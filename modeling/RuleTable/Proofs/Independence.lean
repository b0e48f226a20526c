import RuleTable.Proofs.CommonClasses
import RuleTable.Proofs.Faithfulness
import RuleTable.Proofs.Lockstep

/-!
When earlier work does not show in a section.

A session that has compiled other sections keeps their types, and a composition stays as whoever
came first has listed its parts. A section can tell only by the types that its own statements ask
for: if those that the session has are as this section would make them, its table is the one it
would have had in a new session. The class that the table is written under need not agree as well,
since which rows are kept depends on its relabelings and not on their order.
-/

namespace RuleTable

/-! ### The class for all, in two registries -/

namespace Registry

variable {r r' r₁ r₁' : Registry} {nb : Neighborhood} {t t' m m' : Symmetry}
  {set set' : Std.HashSet Relabeling} {ts types types' candidates candidates' : List Symmetry}
  {start start' : Symmetry}

/-- Types of one name that have the same relabelings, perhaps in another order. -/
structure Twins (t t' : Symmetry) : Prop where
  name : t.name = t'.name
  neighborhood : t.neighborhood = t'.neighborhood
  alike : Alike t t'
  valid : t.Valid
  valid' : t'.Valid

lemma twins_of_name (hr : r.Sound) (hr' : r'.Sound) (ht : r.Knows t) (ht' : r'.Knows t')
    (hnb : t.neighborhood = t'.neighborhood) (hname : t.name = t'.name) : Twins t t' :=
  ⟨hname, hnb, alike_of_name_eq hr hr' ht ht' hnb hname, hr.valid t ht, hr'.valid t' ht'⟩

lemma Twins.order (h : Twins t t') : t.order = t'.order := by
  have hperm := (List.perm_ext_iff_of_nodup (Symmetry.nodup_relabelings h.valid)
    (Symmetry.nodup_relabelings h.valid')).mpr h.alike
  rw [Symmetry.order_eq, Symmetry.order_eq, hperm.length_eq]

lemma Twins.containedIn (h : Twins t t') (hset : ∀ p, p ∈ set ↔ p ∈ set') :
    containedIn t set = containedIn t' set' := by
  rw [Bool.eq_iff_iff, containedIn_iff h.valid, containedIn_iff h.valid']
  simp only [hset, h.alike _]

/-- The search for the largest class goes by relabelings only. -/
lemma twins_largestWithin (hset : ∀ p, p ∈ set ↔ p ∈ set') (hstart : Twins start start')
    (h : List.Forall₂ Twins candidates candidates') :
    Twins (largestWithin set start candidates) (largestWithin set' start' candidates') := by
  have hsize : set.size = set'.size := (Std.HashSet.Equiv.of_forall_mem_iff hset).size_eq
  induction h generalizing start start' with
  | nil => exact hstart
  | cons ht _ ih =>
    rw [largestWithin, largestWithin, ht.order, ht.containedIn hset, hstart.order, hsize]
    split
    · exact ht
    split
    · exact ih ht
    · exact ih hstart

lemma Choice.twins (hr : r.Sound) (hr' : r'.Sound) (h : Choice r nb types start candidates)
    (h' : Choice r' nb types' start' candidates') (hmem : ∀ t, t ∈ types ↔ t ∈ types') :
    Twins (largestWithin (shared types) start candidates)
      (largestWithin (shared types') start' candidates') := by
  refine twins_largestWithin (fun p => ?_) ?_ ?_
  · rw [mem_shared h.ne_nil fun t ht => hr.valid t (h.knows t ht).1,
      mem_shared h'.ne_nil fun t ht => hr'.valid t (h'.knows t ht).1]
    simp only [hmem]
  · have hs := h.start_eq.post (stores_none hr nb)
    have hs' := h'.start_eq.post (stores_none hr' nb)
    exact twins_of_name hr hr' hs.knows hs'.knows (hs.neighborhood.trans hs'.neighborhood.symm)
      ((hs.name_eq hr (by decide)).trans (hs'.name_eq hr' (by decide)).symm)
  · obtain ⟨hlen, hget⟩ := List.forall₂_iff_get.mp (h.forall₂_named hr)
    obtain ⟨hlen', hget'⟩ := List.forall₂_iff_get.mp (h'.forall₂_named hr')
    refine List.forall₂_iff_get.mpr ⟨hlen.symm.trans hlen', fun i hi hi' => ?_⟩
    have hs := (hget i (hlen ▸ hi) hi).post (stores_named hr nb _)
    have hs' := (hget' i (hlen ▸ hi) hi').post (stores_named hr' nb _)
    exact twins_of_name hr hr' hs.knows hs'.knows (hs.neighborhood.trans hs'.neighborhood.symm)
      ((hs.made hr).label_eq.trans (hs'.made hr').label_eq.symm)

/-- **The class for given types** is the same in all registries, up to the order of its
relabelings. -/
lemma twins_minimal (hr : r.Sound) (hr' : r'.Sound) (hts : ∀ t ∈ ts, r.Knows t)
    (hts' : ∀ t ∈ ts, r'.Knows t) (h : runFrom (minimal ts) r = (.ok (some m), r₁))
    (h' : runFrom (minimal ts) r' = (.ok (some m'), r₁')) : Twins m m' := by
  have hkeeps := keeps_minimal hr hts
  have hkeeps' := keeps_minimal hr' hts'
  obtain ⟨nb, hnb, -⟩ := hkeeps.post (some m) (by rw [h])
  have hs := hkeeps.sound
  have hs' := hkeeps'.sound
  have hgrows := hkeeps.grows
  have hgrows' := hkeeps'.grows
  rw [h] at hs hgrows
  rw [h'] at hs' hgrows'
  have hne : ts ≠ [] := by
    rintro rfl
    cases h
  obtain ⟨types, start, candidates, hc, hmem, rfl⟩ := exists_choice hs hne
    (fun t ht => ⟨(hts t ht).mono hgrows, hnb t ht⟩)
    (chosen_of_choose ((minimal_ok_iff hne hnb).mp h))
  obtain ⟨types', start', candidates', hc', hmem', rfl⟩ := exists_choice hs' hne
    (fun t ht => ⟨(hts' t ht).mono hgrows', hnb t ht⟩)
    (chosen_of_choose ((minimal_ok_iff hne hnb).mp h'))
  exact hc.twins hs hs' hc' fun t => (hmem t).symm.trans (hmem' t)

end Registry

/-! ### What is kept for it -/

open Registry

variable {r r' : Registry} {target target' : Symmetry}

/-- Without a cache both computations come to a result, and it is the same. -/
def ComeAlike {α : Type} (act act' : CacheM α) : Prop := ∃ a, Comes act a ∧ Comes act' a

namespace ComeAlike

variable {α β : Type}

lemma pure (a : α) : ComeAlike (Pure.pure a) (Pure.pure a) := ⟨a, rfl, rfl⟩

lemma bind {act act' : CacheM α} {f f' : α → CacheM β} (h : ComeAlike act act')
    (hf : ∀ a, Comes act a → ComeAlike (f a) (f' a)) : ComeAlike (act >>= f) (act' >>= f') := by
  obtain ⟨a, ha, ha'⟩ := h
  obtain ⟨b, hb, hb'⟩ := hf a ha
  exact ⟨b, ha.bind hb, ha'.bind hb'⟩

lemma foldlM {f f' : β → α → CacheM β} {l : List α}
    (hstep : ∀ b, ∀ a ∈ l, ComeAlike (f b a) (f' b a)) (b : β) :
    ComeAlike (l.foldlM f b) (l.foldlM f' b) := by
  induction l generalizing b with
  | nil => exact .pure b
  | cons a l ih =>
    rw [List.foldlM_cons, List.foldlM_cons]
    exact (hstep b a List.mem_cons_self).bind fun b _ =>
      ih (fun b a ha => hstep b a (List.mem_cons_of_mem _ ha)) b

end ComeAlike

namespace Rule

variable {rule : Rule} {rows : List Row}

lemma canonOf_twins (h : Twins target target') {napkin : List Value}
    (hlen : napkin.length = target.neighborhood.size) :
    canonOf target napkin = canonOf target' napkin := by
  obtain ⟨texts, hrun, hne, htexts⟩ := Symmetry.canonicalKey_ok h.valid hlen Value.key
  obtain ⟨texts', hrun', -, htexts'⟩ :=
    Symmetry.canonicalKey_ok h.valid' (h.neighborhood ▸ hlen) Value.key
  have hsame : Symmetry.least texts = Symmetry.least texts' :=
    Symmetry.least_eq_of_mem_iff hne fun k => by simp only [htexts, htexts', h.alike _]
  rw [canonOf, canonOf, hrun, hrun', hsame]

lemma Prepared.short_iff (h : rule.Prepared target r) :
    (rule.symmetry.key == target.key || rule.symmetry.equivalent target) = true ↔
      Alike rule.symmetry target := by
  rw [Bool.or_eq_true, Symmetry.equivalent_iff h.fits.declared h.fits.written]
  constructor
  · rintro (hkey | hsame)
    · rw [h.same (eq_of_beq hkey)]
      exact fun _ => Iff.rfl
    · exact hsame.2
  · exact fun hsame => .inr
      ⟨h.fits.declared_neighborhood.trans h.fits.written_neighborhood.symm, hsame⟩

lemma add_twins (h : Twins target target') (k : Kept) (item : Item)
    (hlen : item.napkin.length = target.neighborhood.size) :
    ComeAlike (k.add target item.initial item.result item.napkin)
      (k.add target' item.initial item.result item.napkin) := by
  have hkey : item.key target = item.key target' := by rw [Item.key, Item.key, canonOf_twins h hlen]
  refine ⟨_, comes_add h.valid k item hlen, ?_⟩
  rw [hkey]
  exact comes_add h.valid' k item (h.neighborhood ▸ hlen)

/-- **Reduction goes by relabelings only:** in what order the target has them does not matter. -/
lemma reduce_twins (h : Twins target target') (hp : rule.Prepared target r)
    (hp' : rule.Prepared target' r')
    (hlen : ∀ row ∈ rows, row.length = rule.neighborhood.size + 2) :
    ComeAlike (rule.reduce target rows) (rule.reduce target' rows) := by
  have hshort : Alike rule.symmetry target ↔ Alike rule.symmetry target' :=
    forall_congr' fun p => by rw [h.alike p]
  unfold reduce
  by_cases hs : Alike rule.symmetry target
  · rw [if_pos (hp.short_iff.mpr hs), if_pos (hp'.short_iff.mpr (hshort.mp hs))]
    exact .pure rows
  rw [if_neg (mt hp.short_iff.mp hs), if_neg (mt hp'.short_iff.mp (mt hshort.mpr hs))]
  refine (ComeAlike.foldlM (fun k row hrow => ?_) _).bind fun _ _ => .pure _
  obtain ⟨item, rfl, hnap⟩ := exists_item (hlen row hrow)
  simp only [item.head_row, item.last_row hnap, item.middle_row hnap]
  obtain ⟨orbit, hrun, horbit⟩ := Symmetry.expand_ok hp.fits.declared
    (hnap.trans (by rw [hp.fits.declared_neighborhood])) Value.key
  refine ComeAlike.bind ⟨orbit, hrun, hrun⟩ fun orbit' hrun' => ?_
  obtain rfl : orbit = orbit' := Comes.unique hrun hrun'
  refine .foldlM (fun k napkin hmem => add_twins h k ⟨item.initial, napkin, item.result⟩ ?_) k
  obtain ⟨p, hpmem, rfl⟩ := (horbit napkin).mp hmem
  have himage : Image rule item ⟨item.initial, p.apply (normalForm item.napkin Value.key),
    item.result⟩ := ⟨p, hpmem, rfl⟩
  exact (himage.length hp.fits hnap).trans (by rw [hp.fits.written_neighborhood])

end Rule

/-! ### The table -/

/-- What is written of a section: its name, the directives, the variables and the transitions. -/
def CompiledSection.written (c : CompiledSection) :
    String × List String × List String × List Line :=
  (c.name, c.header, c.vars, c.lines)

namespace Table

open SectionM

variable {pr : Proviso} {s s₁ s₁' : SectionState} {session : Session}

lemma writeEntries_twins (h : Twins target target') {es : List Entry}
    (hp : ∀ e ∈ es, e.rule.Prepared target r) (hp' : ∀ e ∈ es, e.rule.Prepared target' r')
    (hlen : ∀ e ∈ es, ∀ row ∈ e.rows ++ e.auxiliaryRows, row.length = e.rule.neighborhood.size + 2)
    {cache cache' : Option OrbitCache} (hcache : CacheFits (r.types[·]?) cache)
    (hcache' : CacheFits (r'.types[·]?) cache') (l : Listing) :
    ∃ l', (runFrom (writeEntries target es l) cache).1 = .ok l' ∧
      (runFrom (writeEntries target' es l) cache').1 = .ok l' := by
  induction es generalizing cache cache' l with
  | nil => exact ⟨l, rfl, rfl⟩
  | cons e es ih =>
    rw [List.forall_mem_cons] at hp hp' hlen
    have hlen₁ := fun row hrow => hlen.1 row (List.mem_append_left _ hrow)
    have hlen₂ := fun row hrow => hlen.1 row (List.mem_append_right _ hrow)
    obtain ⟨a, ha, ha'⟩ := Rule.reduce_twins h hp.1 hp'.1 hlen₁
    obtain ⟨b, hb, hb'⟩ := Rule.reduce_twins h hp.1 hp'.1 hlen₂
    obtain ⟨cache₁, ha, hcache₁⟩ := hp.1.runs hlen₁ hcache ha
    obtain ⟨cache₁', ha', hcache₁'⟩ := hp'.1.runs hlen₁ hcache' ha'
    obtain ⟨cache₂, hb, hcache₂⟩ := hp.1.runs hlen₂ hcache₁ hb
    obtain ⟨cache₂', hb', hcache₂'⟩ := hp'.1.runs hlen₂ hcache₁' hb'
    simp only [writeEntries, runFrom_bind, ha, ha', hb, hb']
    exact ih hp.2 hp'.2 hlen.2 hcache₂ hcache₂' _

/-- The class is that for the types declared, or the identity alone if there are none. -/
lemma commonSymmetry_cases {nb : Neighborhood} (hs : s.Sound pr)
    (h : runFrom (commonSymmetry nb) s = (.ok target, s₁)) :
    (declaredTypes s = [] ∧ (runFrom (Registry.none nb) s.session.registry).1 = .ok target) ∨
      ∃ r, runFrom (minimal (declaredTypes s)) s.session.registry = (.ok (some target), r) := by
  have hpost := (keeps_minimal hs.registry.sound fun t ht => (declaredTypes_known hs ht).1).post
  rw [runFrom_commonSymmetry] at h
  rcases hrun : runFrom (minimal (declaredTypes s)) s.session.registry with ⟨_ | _ | t, r⟩ <;>
    rw [hrun] at h hpost
  · cases h
  · have hempty : declaredTypes s = [] := hpost _ rfl
    rw [hempty] at hrun
    cases hrun
    exact .inl ⟨hempty, congrArg Prod.fst h⟩
  · cases h
    exact .inr ⟨r, rfl⟩

/-- Sections with the same entries are written under the same class. -/
lemma twins_commonSymmetry {nb : Neighborhood} (hs : s.Sound pr)
    (hs' : SectionState.Sound pr { s with session := session })
    (h : runFrom (commonSymmetry nb) s = (.ok target, s₁))
    (h' : runFrom (commonSymmetry nb) { s with session := session } = (.ok target', s₁')) :
    Twins target target' := by
  have htypes : declaredTypes { s with session := session } = declaredTypes s := rfl
  have hr := hs.registry.sound
  have hr' := hs'.registry.sound
  rcases commonSymmetry_cases hs h with ⟨hempty, hnone⟩ | ⟨r, hrun⟩ <;>
    rcases commonSymmetry_cases hs' h' with ⟨hempty', hnone'⟩ | ⟨r', hrun'⟩
  · have hk := stores_none hr nb
    have hk' := stores_none hr' nb
    have ht := hk.post target hnone
    have ht' := hk'.post target' hnone'
    exact twins_of_name hk.sound hk'.sound ht.knows ht'.knows
      (ht.neighborhood.trans ht'.neighborhood.symm)
      ((ht.name_eq hk.sound (by decide)).trans (ht'.name_eq hk'.sound (by decide)).symm)
  · rw [htypes, hempty] at hrun'
    cases hrun'
  · rw [← htypes, hempty'] at hrun
    cases hrun
  · exact twins_minimal hr hr' (fun t ht => (declaredTypes_known hs ht).1)
      (fun t ht => (declaredTypes_known hs' (t := t) ht).1) hrun hrun'

/-- Sections that differ only in what they share with others are written the same. -/
lemma finish_same (hs : s.Sound pr) (hs' : SectionState.Sound pr { s with session := session }) :
    (runFrom finish { s with session := session }).1.map CompiledSection.written =
      (runFrom finish s).1.map CompiledSection.written := by
  obtain ⟨target, r, hcommon, htarget⟩ := commonSymmetry_ok hs
  obtain ⟨target', r', hcommon', htarget'⟩ := commonSymmetry_ok hs'
  have htwins := twins_commonSymmetry hs hs' hcommon hcommon'
  obtain ⟨scope, hopens⟩ := exists_opens hs.count.2
  obtain ⟨l, hrun, hrun'⟩ := writeEntries_twins htwins
    (fun e he => htarget.prepared e (Array.mem_toList_iff.mp he))
    (fun e he => htarget'.prepared e (Array.mem_toList_iff.mp he))
    (fun e he row hrow => (entry_fits hs hopens (Array.mem_toList_iff.mp he) row hrow).length)
    (cacheFits_of_sound hs r) (cacheFits_of_sound hs' r') {}
  obtain ⟨stats, s₁, hfinish, -⟩ := runFrom_finish hcommon hopens hrun
  obtain ⟨stats', s₁', hfinish', -⟩ :=
    runFrom_finish (s := { s with session := session }) hcommon' hopens hrun'
  rw [hfinish, hfinish']
  simp only [Except.map, CompiledSection.written, CompiledSection.header, htwins.name]

def registryAfter (t : Table) (seed : UInt64) (session : Session) : Registry :=
  (runFrom (t.statements.forM obey) (t.start seed session)).2.session.registry

/-- **Earlier work does not show** where it agrees. Take a session that may have compiled other
sections before. If no type that it has stands under a key for which the statements of the table
make another one in a new session, then the table comes to the same in both: the same directives,
variables and transitions in the same order, or the same failures. -/
theorem compile_eq_of_agrees {session : Session} {t : Table} {seed : UInt64}
    (hr : session.registry.Reachable) (cache : OrbitCache)
    (h : session.registry.Agrees (t.registryAfter seed { cache := cache })) :
    (runFrom (t.compile seed) session).1.map (·.map CompiledSection.written) =
      (runFrom (t.compile seed) { cache := cache }).1.map (·.map CompiledSection.written) := by
  have hbeside : BesideIn session.registry (t.start seed { cache := cache })
      (t.start seed session) :=
    ⟨(t.start seed session).session, rfl, joins_empty _⟩
  have hsound : ∀ session : Session, session.registry.Reachable →
      (runFrom (t.statements.forM obey) (t.start seed session)).2.Sound .none :=
    fun session hr => forM_obey_sound (start_sound hr t seed) fun st _ => st.meets_none
  have hnew := hsound { cache := cache } .start
  have hold := hsound session hr
  obtain ⟨hx, hj⟩ := (forM_obey_follows hr.sound t.statements).inStep _ sound_empty _ hbeside h
  rw [runFrom_compile, runFrom_compile, runFrom_process, runFrom_process]
  rcases hrun : runFrom (t.statements.forM obey) (t.start seed { cache := cache }) with ⟨x, s⟩
  rcases hrun' : runFrom (t.statements.forM obey) (t.start seed session) with ⟨x', s'⟩
  rw [hrun, hrun'] at hx hj
  rw [hrun] at hnew
  rw [hrun'] at hold
  obtain rfl : x' = x := hx
  obtain ⟨session', rfl, -⟩ := hj
  rcases x' with (f | _) | _
  · rfl
  · rfl
  · dsimp only
    split
    · have hsame := finish_same hnew hold
      rw [runFrom_map, runFrom_map]
      revert hsame
      rcases (runFrom finish s).1 with _ | c <;>
        rcases (runFrom finish { s with session := session' }).1 with _ | c' <;>
        simp [Except.map]
    · rfl

end Table

/-! ### Rotations after a composition -/

namespace Registry

/-- All that a registry has of this name is the same everywhere. -/
lemma eq_of_rotations {t t' : Symmetry} {key : String} {ways : ℤ} (hr : r.Sound) (hr' : r'.Sound)
    (ht : r.types[key]? = some t) (ht' : r'.types[key]? = some t')
    (hname : t'.name = s!"rotate{ways}") :
    t = t' := by
  have hknows' : r'.Knows t' := by rwa [Knows, hr'.key key t' ht']
  obtain ⟨name, hkey, -⟩ := hr'.made t' hknows'
  obtain rfl : key = keyOf t'.neighborhood name := (hr'.key key t' ht').symm.trans hkey
  have hs := hr.stands ht
  have hs' := hr'.stands ht'
  have hsame : t.name = t'.name := (hs.made hr).label_eq.trans (hs'.made hr').label_eq.symm
  obtain ⟨rotations, hrot, hp⟩ := hr.rotations_of_name hs.knows (hsame.trans hname)
  obtain ⟨rotations', hrot', hp'⟩ := hr'.rotations_of_name hs'.knows hname
  rw [hs.neighborhood, hrot'] at hrot
  refine Symmetry.eq_of_presentation_eq hsame (hs.key.trans hs'.key.symm) hs.neighborhood ?_
  rw [hp, hp', Except.ok.inj hrot]

/-- A new registry that was asked for quarter turns has types of this name only. -/
lemma name_of_turns {key : String} {t : Symmetry}
    (h : (runFrom (named .vonNeumann "rotate4") {}).2.types[key]? = some t) :
    t.name = "rotate4" := by
  have hname : Text.lower (Text.trim "rotate4") = "rotate4" := by cbv
  have hrecipe : Neighborhood.recipe? .vonNeumann "rotate4" = some (.rotate 4) := by cbv
  have hempty : ∀ key : String, ({} : Registry).types[key]? = Option.none := by simp
  unfold named prepare rotate at h
  simp only [hname, hrecipe, runFrom_memo, hempty, runFrom_bind, runFrom_failing] at h
  obtain ⟨rotations, hrot⟩ : ∃ rotations, Neighborhood.rotationsBy .vonNeumann 4 = .ok rotations :=
    ⟨_, rfl⟩
  rw [hrot] at h
  change ((withType _ _).withType _).types[key]? = some t at h
  rw [getElem?_withType, getElem?_withType, hempty] at h
  split at h
  · cases h
    rfl
  split at h
  · cases h
    rfl
  · cases h

lemma agrees_turns (hr : r.Sound) (span : Span) :
    r.Agrees (runFrom (declare .vonNeumann { name := "rotate4", span := span }) {}).2 := by
  have hop : Text.lower "" = "" := by cbv
  have hname : Text.lower (Text.trim "rotate4") = "rotate4" := by cbv
  have hrecipe : Neighborhood.recipe? .vonNeumann "rotate4" = some (.rotate 4) := by cbv
  have hrun : (runFrom (declare .vonNeumann { name := "rotate4", span := span }) {}).2 =
      (runFrom (named .vonNeumann "rotate4") {}).2 := by
    rw [declare, snd_runFrom_locating]
    simp only [hop, declareNamed, hname, hrecipe]
    rfl
  intro key t t' ht ht'
  rw [hrun] at ht'
  exact eq_of_rotations hr (keeps_named sound_empty _ _).sound ht ht'
    (show t'.name = s!"rotate{(4 : ℤ)}" from name_of_turns ht')

end Registry

namespace Table

open SectionM

/-- Of all that its statements do, only the symmetry asks for types. -/
lemma registryAfter_turning (seed : UInt64) (cache : OrbitCache) :
    turning.registryAfter seed { cache := cache } =
      (runFrom (declare .vonNeumann { name := "rotate4", span := ⟨3, 1, 1⟩ }) {}).2 := by
  obtain ⟨turns, r, hturns⟩ := succeeds_turns sound_empty ⟨3, 1, 1⟩
  obtain ⟨s, hpass, hregistry⟩ := growing_allPass { cache := cache } "rotate4" none hturns seed
  have hrun : runFrom (turning.statements.forM obey) (turning.start seed { cache := cache }) =
      (.ok ⟨⟩, s) := hpass.runFrom_forM
  rw [registryAfter, hrun, hturns]
  exact hregistry

/-- A table of one declaration, which lists the reflection first. -/
def flipping : Table where
  name := "flipping"
  statements := [
    .directive "neighborhood" "vonNeumann" none ⟨1, 1, 1⟩,
    .directive "symmetries" "" (some flipFirst) ⟨2, 1, 1⟩]

theorem compile_eq_of_agrees_turning :
    let session := (runFrom (flipping.compile 0) {}).2
    session.registry.Reachable ∧
    session.registry.Agrees (turning.registryAfter 0 { cache := .ofCapacity 0 }) ∧
    (∃ c session', runFrom (turning.compile 0) session = (.ok (.ok c), session')) ∧
    (runFrom (turning.compile 0) session).1.map (·.map CompiledSection.written) =
      (runFrom (turning.compile 0) { cache := .ofCapacity 0 }).1.map
        (·.map CompiledSection.written) := by
  have hnew : (Session.registry {}).Reachable := .start
  have hr := compile_reachable hnew flipping 0
  have hagrees : Agrees (runFrom (flipping.compile 0) {}).2.registry
      (turning.registryAfter 0 { cache := .ofCapacity 0 }) := by
    rw [registryAfter_turning]
    exact agrees_turns hr.sound ⟨3, 1, 1⟩
  obtain ⟨-, c, session', -, -, hrun⟩ :=
    compile_growing hr "rotate4" none (succeeds_turns hr.sound ⟨3, 1, 1⟩) 0
  exact ⟨hr, hagrees, ⟨c, session', hrun⟩, compile_eq_of_agrees hr _ hagrees⟩

end Table

end RuleTable
