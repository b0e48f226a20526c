import RuleTable.Proofs.Sections

/-!
Writing a section.

Once its statements are obeyed, a section can always be written: the entries share a neighborhood,
so there is a class for their symmetries, and each of them can be reduced to it. The lines are those
of the reduced rows, and the variables that they use are declared.
-/

namespace RuleTable

open SectionM

variable {nb : Neighborhood} {full : Prop} {scope : Scope} {r : Registry} {target : Symmetry}

namespace Rule

variable {rule : Rule} {rows out : List Row}

lemma Item.determined_iff (item : Item) : item.row.Determined ↔
    ∀ v o, item.result = .free v o → .free v o ∈ item.initial :: item.napkin := by
  rw [Item.row, Row.Determined, List.getLast?_concat, List.dropLast_concat]
  simp only [Option.some.injEq]

/-- The slot that determines the next state is moved along with the napkin. What stands there then
has the same text, hence is the same variable, as occurrences of one origin are. -/
lemma Rearranges.determined (hfits : rule.Fits target) {item item' : Item}
    (hre : Rearranges rule item item') (hlen : item.row.length = rule.neighborhood.size + 2)
    (hproper : item.row.Proper) (h : item.row.Determined) : item'.row.Determined := by
  rw [Item.determined_iff] at h ⊢
  intro v o hresult
  rw [hre.result] at hresult
  rcases List.mem_cons.mp (h v o hresult) with hinit | hnap
  · rw [hre.initial, ← hinit]
    exact List.mem_cons_self
  obtain ⟨p, hp, hkeys⟩ := hre.napkin
  have hsize : (item.napkin.map Value.key).length = rule.neighborhood.size := by
    simpa [Item.row] using hlen
  have hkey := (hfits.isPerm_declared hp).mem_apply hsize (List.mem_map_of_mem hnap)
  rw [← hkeys] at hkey
  obtain ⟨u, hu, hkey⟩ := List.mem_map.mp hkey
  obtain ⟨w, rfl, -⟩ := Value.exists_free_of_key hkey
  have hmem : ∀ {i : Item}, ∀ u ∈ i.napkin, u ∈ i.row := fun u hu => by simp [Item.row, hu]
  rw [hproper.same v w o (hmem _ hnap) (hre.mem _ (hmem _ hu))]
  exact List.mem_cons_of_mem _ hu

/-- What is kept of rows that fit fits. -/
lemma reduce_fits (hfits : rule.Fits target)
    (hrows : ∀ row ∈ rows, row.Fits rule.neighborhood full scope)
    (hout : Comes (rule.reduce target rows) out) :
    ∀ row ∈ out, row.Fits rule.neighborhood full scope := by
  intro row hrow
  have hlen : ∀ row ∈ rows, row.length = rule.neighborhood.size + 2 :=
    fun row h => (hrows row h).length
  obtain ⟨item, item', hitem, rfl, hre⟩ := reduce_sound hfits hlen hout row hrow
  have h := hrows _ hitem
  exact {
    length := hre.length hfits h.length
    proper := ⟨fun s d o hu => h.proper.drawn s d o (hre.mem _ hu),
      fun v o hu => h.proper.several v o (hre.mem _ hu),
      fun v w o hv hw => h.proper.same v w o (hre.mem _ hv) (hre.mem _ hw)⟩
    determined := hre.determined hfits h.length h.proper h.determined
    within := fun u hu => h.within u (hre.mem u hu) }

/-- With a cache that fits, reduction comes to what it comes to without one, and the cache still
fits. -/
lemma Prepared.runs (h : rule.Prepared target r)
    (hlen : ∀ row ∈ rows, row.length = rule.neighborhood.size + 2) {cache : Option OrbitCache}
    (hcache : CacheFits (r.types[·]?) cache) (hout : Comes (rule.reduce target rows) out) :
    ∃ cache₁, runFrom (rule.reduce target rows) cache = (.ok out, cache₁) ∧
      CacheFits (r.types[·]?) cache₁ := by
  obtain ⟨hsame, hfits⟩ := (transparent_reduce h.fits (h.registry.knownTo h.declared)
    (h.registry.knownTo h.written) hlen).some cache hcache
  exact ⟨_, Prod.ext (by rw [hsame, hout]) rfl, hfits⟩

end Rule

namespace Table

def Reduces (target : Symmetry) (e : Entry) (out : List Row) : Prop :=
  ∃ rows auxiliaryRows, Comes (e.rule.reduce target e.rows) rows ∧
    Comes (e.rule.reduce target e.auxiliaryRows) auxiliaryRows ∧ out = rows ++ auxiliaryRows

lemma Reduces.fits {e : Entry} {out : List Row} (hfits : e.rule.Fits target)
    (hrows : ∀ row ∈ e.rows ++ e.auxiliaryRows, row.Fits e.rule.neighborhood full scope)
    (h : Reduces target e out) : ∀ row ∈ out, row.Fits e.rule.neighborhood full scope := by
  obtain ⟨rows, auxiliaryRows, ha, hb, rfl⟩ := h
  intro row hrow
  rcases List.mem_append.mp hrow with hrow | hrow
  · exact Rule.reduce_fits hfits (fun r hr => hrows r (List.mem_append_left _ hr)) ha row hrow
  · exact Rule.reduce_fits hfits (fun r hr => hrows r (List.mem_append_right _ hr)) hb row hrow

/-- The listing when the rows of the entries have been added, each with the place of its
transition. -/
def written (blocks : List (Entry × List Row)) (l : Listing) : Listing :=
  blocks.foldl (fun l b => b.2.foldl (·.add b.1.rule.span) l) l

/-- **The entries can be written**, each as what it is reduced to. -/
lemma writeEntries_ok {es : List Entry} (hprep : ∀ e ∈ es, e.rule.Prepared target r)
    (hrows : ∀ e ∈ es, ∀ row ∈ e.rows ++ e.auxiliaryRows, row.Fits e.rule.neighborhood full scope)
    {cache : Option OrbitCache} (hcache : CacheFits (r.types[·]?) cache) {l : Listing}
    {before : List Row} (hl : l.Lists before) :
    ∃ parts, (runFrom (writeEntries target es l) cache).1 = .ok (written (es.zip parts) l) ∧
      List.Forall₂ (Reduces target) es parts ∧
      (written (es.zip parts) l).Lists (before ++ parts.flatten) := by
  induction es generalizing cache l before with
  | nil => exact ⟨[], rfl, .nil, by simpa [written] using hl⟩
  | cons e es ih =>
    rw [List.forall_mem_cons] at hprep hrows
    obtain ⟨he, hes⟩ := hprep
    obtain ⟨hfit, hfits⟩ := hrows
    have hlen : ∀ rows ⊆ e.rows ++ e.auxiliaryRows, ∀ row ∈ rows,
        row.length = e.rule.neighborhood.size + 2 := fun rows hsub row hrow =>
      (hfit row (hsub hrow)).length
    have hlen₁ := hlen e.rows (List.subset_append_left _ _)
    have hlen₂ := hlen e.auxiliaryRows (List.subset_append_right _ _)
    obtain ⟨a, hca, -⟩ := Rule.reduce_comes he.fits hlen₁
    obtain ⟨b, hcb, -⟩ := Rule.reduce_comes he.fits hlen₂
    obtain ⟨cache₁, ha, hcache₁⟩ := he.runs hlen₁ hcache hca
    obtain ⟨cache₂, hb, hcache₂⟩ := he.runs hlen₂ hcache₁ hcb
    have hproper : ∀ row ∈ a ++ b, row.Proper := fun row hrow =>
      (Reduces.fits he.fits hfit ⟨a, b, hca, hcb, rfl⟩ row hrow).proper
    obtain ⟨parts, hrun, hparts, hlists⟩ := ih hes hfits hcache₂ (hl.foldl e.rule.span hproper)
    refine ⟨(a ++ b) :: parts, ?_, .cons ⟨a, b, hca, hcb, rfl⟩ hparts, ?_⟩
    · rw [writeEntries, runFrom_bind, ha]
      dsimp only
      rw [runFrom_bind, hb]
      exact hrun
    · rw [List.flatten_cons, ← List.append_assoc]
      exact hlists

/-! ### The class for all -/

section

variable {pr : Proviso} {s : SectionState}

/-- The types that the class is chosen for: those of the entries, else the one declared last. -/
def declaredTypes (s : SectionState) : List Symmetry :=
  let types := s.entries.toList.map (·.rule.symmetry)
  if types.isEmpty then s.symmetry.toList else types

lemma mem_declaredTypes {e : Entry} (he : e ∈ s.entries) : e.rule.symmetry ∈ declaredTypes s := by
  have hmem : e.rule.symmetry ∈ s.entries.toList.map (·.rule.symmetry) :=
    List.mem_map_of_mem (Array.mem_toList_iff.mpr he)
  rw [declaredTypes, if_neg]
  · exact hmem
  · rw [List.isEmpty_iff]
    exact List.ne_nil_of_mem hmem

lemma declaredTypes_known (hs : s.Sound pr) {t : Symmetry} (ht : t ∈ declaredTypes s) :
    s.session.registry.Knows t ∧ s.neighborhood = some t.neighborhood := by
  unfold declaredTypes at ht
  dsimp only at ht
  split at ht
  · obtain ⟨nb, hnb, hknows, htnb, -⟩ := hs.symmetry t (Option.mem_toList.mp ht)
    exact ⟨hknows, htnb ▸ hnb⟩
  · obtain ⟨e, he, rfl⟩ := List.mem_map.mp ht
    obtain ⟨nb, scope, hnb, -, hsound⟩ := hs.entries e (Array.mem_toList_iff.mp he)
    exact ⟨hsound.symmetry.1, hsound.symmetry.2.1 ▸ hnb⟩

/-- The cache of a section is empty until it is written. -/
lemma cacheFits_of_sound (hs : s.Sound pr) (r : Registry) :
    CacheFits (r.types[·]?) (some s.session.cache) := by
  rintro c ⟨⟩
  rw [hs.cache]
  exact OrbitCache.fits_purge _ _

lemma entry_fits {scope : Scope} (hs : s.Sound pr) (hopens : Opens s scope) {e : Entry}
    (he : e ∈ s.entries) : ∀ row ∈ e.rows ++ e.auxiliaryRows,
      row.Fits e.rule.neighborhood (s.stateCount = 1 → pr.mute) scope := by
  obtain ⟨nb, scope', -, hscope, hsound⟩ := hs.entries e he
  rcases hopens with hopen | ⟨hopen, -⟩ <;> cases hscope.symm.trans hopen
  rw [hsound.neighborhood]
  exact hsound.rows

/-- What is known of the class that a section is written under. -/
structure Common (s : SectionState) (target : Symmetry) (r : Registry) : Prop where
  history : Registry.History s.session.registry r
  yields : Registry.Yields (s.neighborhood.getD .moore) True r target
  prepared : ∀ e ∈ s.entries, e.rule.Prepared target r
  contained : ∀ e ∈ s.entries, ∀ p ∈ target.relabelings, p ∈ e.rule.symmetry.relabelings

lemma runFrom_commonSymmetry (nb : Neighborhood) (s : SectionState) :
    runFrom (commonSymmetry nb) s =
    match runFrom (Registry.minimal (declaredTypes s)) s.session.registry with
    | (.ok (some t), r) => (.ok t, { s with session := { s.session with registry := r } })
    | (.ok none, r) => runFrom (onRegistry (Registry.none nb))
        { s with session := { s.session with registry := r } }
    | (.error e, r) => (.error e, { s with session := { s.session with registry := r } }) := by
  unfold commonSymmetry
  rw [runFrom_bind, runFrom_get]
  dsimp only
  rw [runFrom_bind, runFrom_onRegistry, ← declaredTypes]
  rcases runFrom (Registry.minimal (declaredTypes s)) s.session.registry with ⟨_ | _ | _, _⟩ <;> rfl

/-- **There is always a class** that the entries can be written under. -/
lemma commonSymmetry_ok (hs : s.Sound pr) : ∃ target r,
    runFrom (commonSymmetry (s.neighborhood.getD .moore)) s =
      (.ok target, { s with session := { s.session with registry := r } }) ∧ Common s target r := by
  have hkeeps := Registry.keeps_minimal hs.registry.sound fun t ht => (declaredTypes_known hs ht).1
  rw [runFrom_commonSymmetry]
  by_cases hne : declaredTypes s = []
  · -- without types there are no entries either
    have hnone : s.entries = #[] := by
      rw [Array.eq_empty_iff_forall_not_mem]
      intro e he
      have := mem_declaredTypes he
      rw [hne] at this
      cases this
    have hstored := Registry.keeps_none hs.registry.sound (s.neighborhood.getD .moore)
    obtain ⟨t, r, hrun⟩ : Registry.Succeeds s.session.registry
      (Registry.none (s.neighborhood.getD .moore)) := .memo ⟨_, _, rfl⟩
    have hpost := hstored.post
    have hhistory := Registry.History.one (r := s.session.registry)
      (.none (s.neighborhood.getD .moore)) nofun
    rw [hrun] at hpost
    rw [Registry.after, hrun] at hhistory
    refine ⟨t, r, ?_, hhistory, (hpost t rfl).1, ?_, ?_⟩
    · rw [hne]
      simp only [Registry.minimal, List.isEmpty_nil, if_true,
        runFrom_pure, runFrom_onRegistry, hrun]
    · simp [hnone]
    · simp [hnone]
  · obtain ⟨first, hfirst⟩ := List.exists_mem_of_ne_nil _ hne
    have hnb := (declaredTypes_known hs hfirst).2
    have hall : ∀ t ∈ declaredTypes s, t.neighborhood = first.neighborhood := by
      intro t ht
      exact Option.some.inj ((declaredTypes_known hs ht).2.symm.trans hnb)
    obtain ⟨m, r, hrun⟩ := Registry.succeeds_minimal hs.registry.sound hne hall
    have hpost := hkeeps.post
    have hhistory := Registry.History.one (.minimal (declaredTypes s))
      fun t ht => (declaredTypes_known hs ht).1
    rw [hrun] at hpost
    rw [Registry.after, hrun] at hhistory
    cases m with
    | none => exact absurd (hpost _ rfl) hne
    | some target =>
      obtain ⟨nb, hnb', hyields, hcontained⟩ := hpost _ rfl
      refine ⟨target, r, by rw [hrun], hhistory, ?_, fun e he => ?_, fun e he => ?_⟩
      · rw [hnb, Option.getD_some, hnb' first hfirst]
        exact hyields
      · obtain ⟨nb', scope, hs', -, hentry⟩ := hs.entries e he
        refine (Rule.prepared_of_minimal hs.registry.sound
          (fun t ht => ⟨(declaredTypes_known hs ht).1, ?_⟩)
          hrun (mem_declaredTypes he)).2
        rw [hentry.neighborhood]
        exact Option.some.inj ((declaredTypes_known hs ht).2.symm.trans hs')
      · exact hcontained _ (mem_declaredTypes he)

/-! ### The table -/

/-- The compiled section says what the section under way has come to: under the class for all its
entries, the lines of what they are reduced to. -/
structure Writes (s : SectionState) (c : CompiledSection) (r : Registry) (scope : Scope)
    (parts : List (List Row)) (l : Listing) : Prop where
  name : c.name = s.table
  stateCount : c.stateCount = s.stateCount
  neighborhood : c.neighborhood = s.neighborhood.getD .moore
  common : Common s c.symmetry r
  opens : Opens s scope
  reduces : List.Forall₂ (Reduces c.symmetry) s.entries.toList parts
  lists : l.Lists parts.flatten
  vars : c.vars = l.declarations scope
  lines : c.lines = l.lines.toList

/-- The listing is that of the entries, and its lines and those that were left out are counted. -/
structure Counts (s : SectionState) (c : CompiledSection) (parts : List (List Row)) (l : Listing) :
    Prop where
  listing : l = written (s.entries.toList.zip parts) {}
  lines : c.stats.lines = l.lines.size
  duplicates : c.stats.duplicates = l.duplicates

/-- The class is found, the entries are written, and this is the section. -/
lemma runFrom_finish {target : Symmetry} {r : Registry} {scope : Scope} {l : Listing}
    (hcommon : runFrom (commonSymmetry (s.neighborhood.getD .moore)) s =
      (.ok target, { s with session := { s.session with registry := r } }))
    (hopens : Opens s scope)
    (hrun : (runFrom (writeEntries target s.entries.toList {}) (some s.session.cache)).1 = .ok l) :
    ∃ stats s', runFrom finish s = (.ok ⟨s.table, s.stateCount, s.neighborhood.getD .moore, target,
        l.declarations scope, l.lines.toList, stats⟩, s') ∧
      s'.session.events = (s.session.events.push (.chosen s.table target s.entries.size)).push
        (.compiled ⟨s.table, s.stateCount, s.neighborhood.getD .moore, target,
          l.declarations scope, l.lines.toList, stats⟩) ∧ s'.session.registry = r ∧
      stats.lines = l.lines.size ∧ stats.duplicates = l.duplicates := by
  let chosen := SectionState.noting { s with session := { s.session with registry := r } }
    (.chosen s.table target s.entries.size)
  obtain ⟨cache, hcached⟩ : ∃ cache,
      runFrom (onCache (writeEntries target s.entries.toList {})) chosen =
        (.ok l, { chosen with session := { chosen.session with cache := cache } }) :=
    ⟨_, Prod.ext hrun rfl⟩
  exact ⟨_, _, runFrom_bind_ok.mpr ⟨_, _, runFrom_get s, runFrom_bind_ok.mpr
    ⟨_, _, hcommon, runFrom_bind_ok.mpr ⟨_, _, rfl, runFrom_bind_ok.mpr ⟨_, _, rfl,
      runFrom_bind_ok.mpr ⟨_, _, rfl, runFrom_bind_ok.mpr ⟨_, _, rfl, runFrom_bind_ok.mpr
        ⟨_, _, hcached, runFrom_bind_ok.mpr ⟨_, _, runFrom_theScope hopens, rfl⟩⟩⟩⟩⟩⟩⟩⟩,
          rfl, rfl, rfl, rfl⟩

/-- **A section can always be written**, and it is watched to be done once. -/
lemma finish_ok (hs : s.Sound pr) : ∃ c s' r scope parts l, runFrom finish s = (.ok c, s') ∧
    s'.session.events = (s.session.events.push (.chosen s.table c.symmetry s.entries.size)).push
      (.compiled c) ∧ s'.session.registry = r ∧ Counts s c parts l ∧
      Writes s c r scope parts l := by
  obtain ⟨target, r, hcommon, htarget⟩ := commonSymmetry_ok hs
  obtain ⟨scope, hopens⟩ := exists_opens hs.count.2
  obtain ⟨parts, hrun, hparts, hlists⟩ := writeEntries_ok
    (fun e he => htarget.prepared e (Array.mem_toList_iff.mp he))
    (fun e he => entry_fits hs hopens (Array.mem_toList_iff.mp he)) (cacheFits_of_sound hs r)
    Listing.lists_empty
  obtain ⟨stats, s', hfinish, hevents, hregistry, hlines, hduplicates⟩ :=
    runFrom_finish hcommon hopens hrun
  exact ⟨_, s', r, scope, parts, _, hfinish, hevents, hregistry, ⟨rfl, hlines, hduplicates⟩,
    rfl, rfl, rfl, htarget, hopens, hparts, hlists, rfl, rfl⟩

end

end Table

end RuleTable
