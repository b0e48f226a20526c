import RuleTable.Proofs.Overmatching

/-!
One row for each orbit.

Reduction remembers rows by a text: the keys of the ends, and between them the least text of the
napkin's orbit under the class. For names without the marks that stand between the parts, two rows
have one text exactly if their ends agree and the class makes one napkin of the other. So of the
rearrangements of the rows, exactly one row is kept for each orbit of the class.
-/

namespace RuleTable

open Relabeling

/-- The type makes the second napkin of the first, as far as keys tell. -/
def Symmetry.Reaches (t : Symmetry) (napkin napkin' : List Value) : Prop :=
  ∃ p ∈ t.relabelings, p.apply (napkin.map Value.key) = napkin'.map Value.key

namespace Rule

variable {rule : Rule} {target : Symmetry} {rows out : List Row} {n : ℕ}

/-- The items stand for the rearrangements of the rows: each of them is one, each is made of one of
them by the target, and the target makes none of them of another. The last is not asked where type
and target have the same relabelings. -/
structure Represents (rule : Rule) (target : Symmetry) (rows : List Row)
    (kept : List Item) : Prop where
  sound : ∀ item' ∈ kept, ∃ item : Item, item.row ∈ rows ∧ item'.initial = item.initial ∧
    item'.result = item.result ∧ rule.symmetry.Reaches item.napkin item'.napkin
  complete : ∀ item : Item, item.row ∈ rows → ∀ napkin, rule.symmetry.Reaches item.napkin napkin →
    ∃ item' ∈ kept, item'.SameEnds item ∧ target.Reaches item'.napkin napkin
  irredundant : rule.symmetry.equivalent target = false → kept.Pairwise fun item item' =>
    ¬ (item.SameEnds item' ∧ target.Reaches item.napkin item'.napkin)

lemma exists_items (h : ∀ row ∈ rows, row.length = n + 2) :
    ∃ items : List Item, rows = items.map Item.row := by
  induction rows with
  | nil => exact ⟨[], rfl⟩
  | cons row rows ih =>
    rw [List.forall_mem_cons] at h
    obtain ⟨item, rfl, -⟩ := exists_item h.1
    obtain ⟨items, rfl⟩ := ih h.2
    exact ⟨item :: items, rfl⟩

/-- Items that agree up to the target are remembered under one text. -/
lemma Item.key_congr (hv : target.Valid) (hc : target.presentation.Closed) {item item' : Item}
    (hlen : item.napkin.length = target.neighborhood.size)
    (hlen' : item'.napkin.length = target.neighborhood.size)
    (hends : item.SameEnds item') (hreach : target.Reaches item.napkin item'.napkin) :
    item.key target = item'.key target := by
  obtain ⟨p, hp, hnapkin⟩ := hreach
  have hcanon : canonOf target item.napkin = canonOf target item'.napkin :=
    Symmetry.canonicalKey_congr hv (Symmetry.isGroup hv hc) hlen hlen' hp hnapkin
      (comes_canonOf hv hlen) (comes_canonOf hv hlen')
  rw [Item.key, Item.key, hends.1, hends.2, hcanon]

/-- Items of one length that are remembered under different texts do not agree up to the target. -/
lemma pairwise_of_apart (hv : target.Valid) (hc : target.presentation.Closed) {kept : List Item}
    (hlen : ∀ item ∈ kept, item.napkin.length = target.neighborhood.size)
    (hapart : (kept.map Item.row).Pairwise (Apart target)) :
    kept.Pairwise fun item item' =>
      ¬ (item.SameEnds item' ∧ target.Reaches item.napkin item'.napkin) := by
  refine (List.pairwise_map.mp hapart).imp_of_mem ?_
  rintro item item' hitem hitem' hapart ⟨hends, hreach⟩
  exact hapart item item' rfl rfl
    (Item.key_congr hv hc (hlen _ hitem) (hlen _ hitem') hends hreach)

/-- What is kept has the length of the rows, and their values. -/
lemma reduce_rows (h : rule.Fits target)
    (hlen : ∀ row ∈ rows, row.length = rule.neighborhood.size + 2)
    (hk : ∀ row ∈ rows, ∀ v ∈ row, Unmarked v.key) (hout : Comes (rule.reduce target rows) out) :
    ∀ row ∈ out, row.length = rule.neighborhood.size + 2 ∧ ∀ v ∈ row, Unmarked v.key := by
  intro row hrow
  obtain ⟨item, item', hitem, rfl, hre⟩ := reduce_sound h hlen hout row hrow
  exact ⟨hre.length h (hlen _ hitem), fun v hv => hk _ hitem v (hre.mem v hv)⟩

/-- **Nothing is kept twice.** Unless the target is the rule's symmetry over again, no two rows that
are kept agree up to the target. -/
lemma reduce_irredundant (h : rule.Fits target) (hc : target.presentation.Closed)
    (hsame : rule.symmetry.key = target.key → rule.symmetry = target)
    (hne : rule.symmetry.equivalent target = false)
    (hlen : ∀ row ∈ rows, row.length = rule.neighborhood.size + 2)
    (hk : ∀ row ∈ rows, ∀ v ∈ row, Unmarked v.key) {kept : List Item}
    (hout : Comes (rule.reduce target rows) (kept.map Item.row)) :
    kept.Pairwise fun item item' =>
      ¬ (item.SameEnds item' ∧ target.Reaches item.napkin item'.napkin) := by
  have hkey : rule.symmetry.key ≠ target.key := by
    intro hkey
    have := (Symmetry.equivalent_iff h.written h.written).mpr ⟨rfl, fun _ => Iff.rfl⟩
    rw [hsame hkey, this] at hne
    cases hne
  obtain ⟨out', hout', hspec⟩ := reduce_comes h hlen
  obtain rfl := hout.unique hout'
  rw [if_neg (by simp [hkey, hne])] at hspec
  obtain ⟨-, -, -, -, hapart⟩ := hspec
  refine pairwise_of_apart h.written hc (fun item hitem => ?_) hapart
  obtain ⟨hrow, -⟩ := reduce_rows h hlen hk hout _ (List.mem_map_of_mem hitem)
  rw [h.written_neighborhood]
  simpa [Item.row] using hrow

/-- **Representatives.** Take a rule under any type of a registry and a class by name. Reduction
always comes to a result, and its rows stand for the rearrangements of the given rows, one for each
orbit of the class. -/
theorem reduce_represents {r r' : Registry} (hr : r.Reachable) (hdeclared : r.Knows rule.symmetry)
    (hnb : rule.symmetry.neighborhood = rule.neighborhood) {name : String}
    (htarget : runFrom (Registry.named rule.neighborhood name) r = (.ok target, r'))
    (hlen : ∀ row ∈ rows, row.length = rule.neighborhood.size + 2)
    (hnames : ∀ row ∈ rows, ∀ v o, Value.free v o ∈ row →
      '|' ∉ v.name.toList ∧ '\x1f' ∉ v.name.toList)
    {cache : Option OrbitCache} (hcache : CacheFits (r'.types[·]?) cache) :
    ∃ kept : List Item, (runFrom (rule.reduce target rows) cache).1 = .ok (kept.map Item.row) ∧
      rule.Represents target rows kept := by
  have hkeeps := Registry.keeps_named hr.sound rule.neighborhood name
  have hsound := hkeeps.sound
  have hgrows := hkeeps.grows
  have hyields := hkeeps.post target (by rw [htarget])
  rw [htarget] at hsound hgrows hyields
  obtain ⟨hwritten, hwrittenNb, hclosed⟩ := hyields
  have hprep : rule.Prepared target r' := ⟨⟨hsound.valid _ (hdeclared.mono hgrows),
    hsound.valid _ hwritten, hnb, hwrittenNb⟩, hclosed trivial,
      hdeclared.mono hgrows, hwritten, hsound⟩
  have hkeys : ∀ row ∈ rows, ∀ v ∈ row, Unmarked v.key := by
    intro row hrow u hu
    refine unmarked_key fun v o he => ?_
    subst he
    exact (hnames row hrow v o hu).symm
  obtain ⟨out, hcomes, hrun⟩ := hprep.comes hlen hcache
  obtain ⟨kept, rfl⟩ := exists_items fun row hrow =>
    (reduce_rows hprep.fits hlen hkeys hcomes row hrow).1
  refine ⟨kept, hrun, ⟨fun item' hitem' => ?_, ?_, fun hne => ?_⟩⟩
  · obtain ⟨item, item'', hitem, hrow, hre⟩ :=
      reduce_sound hprep.fits hlen hcomes _ (List.mem_map_of_mem hitem')
    obtain rfl := Item.row_inj hrow
    obtain ⟨p, hp, hnapkin⟩ := hre.napkin
    exact ⟨item, hitem, hre.initial, hre.result, p, hp, hnapkin.symm⟩
  · rintro item hitem napkin ⟨p, hp, hnapkin⟩
    obtain ⟨item', hrow, hends, q, hq, he⟩ :=
      reduce_complete hprep.fits hprep.closed hprep.same hlen hkeys hcomes hitem hp
    obtain ⟨item'', hitem', hsame⟩ := List.mem_map.mp hrow
    obtain rfl := Item.row_inj hsame
    exact ⟨item'', hitem', hends, q, hq, he.trans hnapkin⟩
  · exact reduce_irredundant hprep.fits hprep.closed hprep.same hne hlen hkeys hcomes

/-- A row with a variable, of a rule under quarter turns and one reflection combined. -/
def spreadingRow : Row :=
  [.state 1 none 0, .free { name := "a", states := [0, 1] } 1, .state 0 none 0, .state 0 none 0,
    .state 0 none 0, .free { name := "a", states := [0, 1] } 1]

theorem reduce_represents_crossed : ∃ (rule : Rule) (target : Symmetry) (r r' : Registry),
    r.Reachable ∧ r.Knows rule.symmetry ∧ rule.symmetry.neighborhood = rule.neighborhood ∧
    runFrom (Registry.named rule.neighborhood "rotate4") r = (.ok target, r') ∧
    (∀ row ∈ [spreadingRow], row.length = rule.neighborhood.size + 2) ∧
    (∀ row ∈ [spreadingRow], ∀ v o, Value.free v o ∈ row →
      '|' ∉ v.name.toList ∧ '\x1f' ∉ v.name.toList) ∧
    ∃ kept : List Item,
      (runFrom (rule.reduce target [spreadingRow]) (some (.ofCapacity 1))).1 =
        .ok (kept.map Item.row) ∧
      rule.Represents target [spreadingRow] kept := by
  obtain ⟨ts, r, hts⟩ := declareAll_united
  have hkeeps := Registry.keeps_declareAll Registry.sound_empty .vonNeumann [united]
  have hsound := hkeeps.sound
  have hpost := hkeeps.post ts (by rw [hts])
  rw [hts] at hsound hpost
  obtain ⟨t, rfl⟩ := List.length_eq_one_iff.mp (Registry.length_declareAll hts)
  obtain ⟨hknows, hnb, -⟩ := hpost t (List.mem_singleton_self t)
  have hreach : r.Reachable := by
    have h := Registry.History.one (r := {}) (.declare .vonNeumann united)
      (by simp [Registry.Request.types])
    rw [Registry.declareAll] at hts
    obtain ⟨u, r₁, hu, hts⟩ := runFrom_bind_ok.mp hts
    simp only [Registry.after, hu] at h
    cases hts
    exact h
  have hrecipe : Neighborhood.recipe? .vonNeumann (Text.lower (Text.trim "rotate4")) =
      some (.rotate 4) := by cbv
  obtain ⟨target, r', htarget⟩ := Registry.succeeds_named hsound hrecipe
  have hlen : ∀ row ∈ [spreadingRow], row.length = Neighborhood.vonNeumann.size + 2 := by
    simp [spreadingRow]
    rfl
  have hnames : ∀ row ∈ [spreadingRow], ∀ v o, Value.free v o ∈ row →
      '|' ∉ v.name.toList ∧ '\x1f' ∉ v.name.toList := by
    simp +contextual [spreadingRow]
  have hcache : CacheFits (r'.types[·]?) (some (.ofCapacity 1)) := by
    rintro _ ⟨⟩
    exact OrbitCache.fits_empty _ _
  exact ⟨⟨.vonNeumann, [], t, [], .nowhere⟩, target, r,
    r', hreach, hknows, hnb, htarget, hlen, hnames,
    reduce_represents hreach hknows hnb htarget hlen hnames hcache⟩

end Rule

end RuleTable
