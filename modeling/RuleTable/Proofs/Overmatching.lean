import RuleTable.Proofs.Reduction
import RuleTable.Proofs.Requests

/-!
When reduction adds nothing.

The class that rows are written under is contained in the symmetry they were declared under. Still
it may make more of a row than the symmetry does, because rows are first rearranged by the symmetry
and then by the class. This comes to nothing new exactly if following a member of the symmetry by
one of the class is in the symmetry again: always for groups, but not for every union of types.
-/

namespace RuleTable

open Relabeling

namespace Rule

variable {rule : Rule} {target : Symmetry} {rows out : List Row}

/-- Whatever the target makes of the rows that were kept, the rule's symmetry makes of the rows that
were given. -/
def StaysWithin (rule : Rule) (target : Symmetry) (rows out : List Row) : Prop :=
  ∀ item' : Item, item'.row ∈ out → ∀ q ∈ target.relabelings,
    ∃ item : Item, item.row ∈ rows ∧ item.initial = item'.initial ∧ item.result = item'.result ∧
      ∃ p ∈ rule.symmetry.relabelings,
        q.apply (item'.napkin.map Value.key) = p.apply (item.napkin.map Value.key)

/-- Following a member of the first type by one of the second is in the first. -/
def Absorbs (symmetry target : Symmetry) : Prop :=
  ∀ p ∈ symmetry.relabelings, ∀ q ∈ target.relabelings, p.andThen q ∈ symmetry.relabelings

lemma staysWithin_of_absorbs (h : rule.Fits target) (habs : Absorbs rule.symmetry target)
    (hlen : ∀ row ∈ rows, row.length = rule.neighborhood.size + 2)
    (hout : Comes (rule.reduce target rows) out) : rule.StaysWithin target rows out := by
  intro item' hitem' q hq
  obtain ⟨item, item'', hitem, hrow, hre⟩ := reduce_sound h hlen hout _ hitem'
  obtain rfl := Item.row_inj hrow
  obtain ⟨p, hp, hnap⟩ := hre.napkin
  refine ⟨item, hitem, hre.initial.symm, hre.result.symm, p.andThen q, habs p hp q hq, ?_⟩
  have hpp := Symmetry.isPerm_of_mem h.declared hp
  have hqq := Symmetry.isPerm_of_mem h.written hq
  rw [h.declared_neighborhood] at hpp
  rw [h.written_neighborhood] at hqq
  have hlen' : (item.napkin.map Value.key).length = rule.neighborhood.size := by
    simpa [Item.row] using hlen _ hitem
  rw [hnap, hpp.apply_andThen hqq hlen']

/-- An item of which all neighbors are different states. -/
def distinctItem (n : ℕ) : Item :=
  ⟨.state 0 none 0, (List.range n).map fun (i : ℕ) => .state i none 0, .state 0 none 0⟩

lemma length_distinctItem (n : ℕ) : (distinctItem n).row.length = n + 2 := by
  simp [distinctItem, Item.row]

lemma nodup_distinctItem (n : ℕ) : ((distinctItem n).napkin.map Value.key).Nodup := by
  rw [distinctItem, List.map_map]
  refine List.Nodup.map (fun i j h => ?_) List.nodup_range
  exact Int.ofNat_inj.mp (toString_int_inj h)

lemma unmarked_toString (z : ℤ) : Unmarked (toString z) := by
  constructor <;> intro h <;> rcases mem_toString_int h with h | h <;> revert h <;> decide

lemma unmarked_key {u : Value} (h : ∀ v o, u = .free v o → Unmarked v.name) : Unmarked u.key := by
  cases u with
  | state t d o => exact unmarked_toString t
  | free v o =>
    obtain ⟨hunit, hbar⟩ := h v o rfl
    obtain ⟨hunit', hbar'⟩ := unmarked_toString o
    simp only [Unmarked, Value.key, toString_string, String.toList_append, List.mem_append, not_or]
    exact ⟨⟨⟨⟨by decide, hunit⟩, by decide⟩, hunit'⟩, ⟨⟨by decide, hbar⟩, by decide⟩, hbar'⟩

lemma unmarked_distinctItem (n : ℕ) : ∀ v ∈ (distinctItem n).row, Unmarked v.key := by
  intro v hv
  simp only [distinctItem, Item.row, List.cons_append, List.mem_cons, List.mem_append, List.mem_map,
    List.not_mem_nil, or_false] at hv
  rcases hv with rfl | ⟨i, -, rfl⟩ | rfl <;> exact unmarked_toString _

/-- One row with different states everywhere shows whether anything is added. -/
lemma absorbs_of_staysWithin (h : rule.Fits target) (hc : target.presentation.Closed)
    (hsame : rule.symmetry.key = target.key → rule.symmetry = target)
    (hout : Comes (rule.reduce target [(distinctItem rule.neighborhood.size).row]) out)
    (hstays : rule.StaysWithin target [(distinctItem rule.neighborhood.size).row] out) :
    Absorbs rule.symmetry target := by
  intro p hp q hq
  have hgroup := Symmetry.isGroup h.written hc
  rw [h.written_neighborhood] at hgroup
  have hperm : ∀ {p}, p ∈ rule.symmetry.relabelings → IsPerm rule.neighborhood.size p := by
    intro p hp
    rw [← h.declared_neighborhood]
    exact Symmetry.isPerm_of_mem h.declared hp
  set keys := (distinctItem rule.neighborhood.size).napkin.map Value.key with hkeys
  have hlen : keys.length = rule.neighborhood.size := by simp [hkeys, distinctItem]
  -- Some row that was kept stands for the row rearranged by `p`.
  obtain ⟨item', hitem', -, q', hq', hnap⟩ := reduce_complete h hc hsame
    (by simpa using length_distinctItem _) (by simpa using unmarked_distinctItem _) hout
    (List.mem_singleton_self _) hp
  have hlen' : (item'.napkin.map Value.key).length = rule.neighborhood.size := by
    obtain ⟨item, item'', hitem, hrow, hre⟩ := reduce_sound h (by simpa using length_distinctItem _)
      hout _ hitem'
    obtain rfl := Item.row_inj hrow
    obtain rfl := Item.row_inj (List.mem_singleton.mp hitem)
    obtain ⟨p', hp', hnap'⟩ := hre.napkin
    rw [hnap']
    exact (hperm hp').length_apply hlen
  -- What the target makes of it in two steps, it makes in one.
  obtain ⟨item, hitem, -, -, p', hp', he⟩ := hstays item' hitem' _ (hgroup.mul q' hq' q hq)
  obtain rfl := Item.row_inj (List.mem_singleton.mp hitem)
  rw [(hgroup.perm q' hq').apply_andThen (hgroup.perm q hq) hlen', hnap, ← hkeys,
    ← (hperm hp).apply_andThen (hgroup.perm q hq) hlen] at he
  rwa [((hperm hp).andThen (hgroup.perm q hq)).apply_inj (hperm hp') hlen
    (nodup_distinctItem _) he]

/-- Rule and class are known to one registry. -/
structure Prepared (rule : Rule) (target : Symmetry) (r : Registry) : Prop where
  fits : rule.Fits target
  closed : target.presentation.Closed
  declared : r.Knows rule.symmetry
  written : r.Knows target
  registry : r.Sound

lemma Prepared.same {r : Registry} (h : rule.Prepared target r)
    (hkey : rule.symmetry.key = target.key) : rule.symmetry = target :=
  h.declared.unique h.written hkey

lemma Prepared.comes {r : Registry} (h : rule.Prepared target r)
    (hlen : ∀ row ∈ rows, row.length = rule.neighborhood.size + 2) {cache : Option OrbitCache}
    (hcache : CacheFits (r.types[·]?) cache) :
    ∃ out, Comes (rule.reduce target rows) out ∧
      (runFrom (rule.reduce target rows) cache).1 = .ok out := by
  obtain ⟨out, hout, -⟩ := reduce_comes h.fits hlen
  have htrans : Transparent (r.types[·]?) (rule.reduce target rows) :=
    transparent_reduce h.fits (h.registry.knownTo h.declared) (h.registry.knownTo h.written) hlen
  exact ⟨out, hout, by rw [(htrans.some cache hcache).1, hout]⟩

lemma prepared_of_minimal {r r' : Registry} {ts : List Symmetry} (hr : r.Sound)
    (hts : ∀ t ∈ ts, r.Knows t ∧ t.neighborhood = rule.neighborhood)
    (htarget : runFrom (Registry.minimal ts) r = (.ok (some target), r'))
    (hrule : rule.symmetry ∈ ts) : r'.Sound ∧ rule.Prepared target r' := by
  have hkeeps := Registry.keeps_minimal hr fun t ht => (hts t ht).1
  have hsound := hkeeps.sound
  have hgrows := hkeeps.grows
  have hpost := hkeeps.post
  rw [htarget] at hsound hgrows hpost
  obtain ⟨nb, hnb, ⟨hk, htnb, hc⟩, -⟩ := hpost _ rfl
  have hknows := (hts _ hrule).1.mono hgrows
  have hnb' : nb = rule.neighborhood := (hnb _ hrule).symm.trans (hts _ hrule).2
  exact ⟨hsound, ⟨hsound.valid _ hknows, hsound.valid _ hk, (hts _ hrule).2, htnb.trans hnb'⟩,
    hc trivial, hknows, hk, hsound⟩

/-- **Over-matching.** Take a rule under one of several declared types, combined ones included, and
the class chosen for all of them. Reduction always comes to a result, and it stays within the orbits
of the rows exactly if the type absorbs the class. -/
theorem reduce_staysWithin_iff {r r₁ r₂ : Registry} (hr : r.Reachable) {nb : Neighborhood}
    {es : List SymmetryExpr} {ts : List Symmetry}
    (hts : runFrom (Registry.declareAll nb es) r = (.ok ts, r₁))
    (htarget : runFrom (Registry.minimal ts) r₁ = (.ok (some target), r₂))
    (hnb : rule.neighborhood = nb) (hrule : rule.symmetry ∈ ts) :
    (∀ rows cache, (∀ row ∈ rows, row.length = nb.size + 2) → CacheFits (r₂.types[·]?) cache →
      ∃ out, (runFrom (rule.reduce target rows) cache).1 = .ok out) ∧
    ((∀ rows cache out, (∀ row ∈ rows, row.length = nb.size + 2) →
      CacheFits (r₂.types[·]?) cache → (runFrom (rule.reduce target rows) cache).1 = .ok out →
      rule.StaysWithin target rows out) ↔ Absorbs rule.symmetry target) := by
  subst hnb
  have hkeeps := Registry.keeps_declareAll hr.sound rule.neighborhood es
  have hsound := hkeeps.sound
  have hpost := hkeeps.post
  rw [hts] at hsound hpost
  have hknown := fun t ht => And.intro (hpost ts rfl t ht).1 (hpost ts rfl t ht).2.1
  obtain ⟨-, hprep⟩ := prepared_of_minimal hsound hknown htarget hrule
  refine ⟨fun rows cache hlen hcache => ?_, fun hstays => ?_,
    fun habs rows cache out hlen hcache h => ?_⟩
  · obtain ⟨out, -, hout⟩ := hprep.comes hlen hcache
    exact ⟨out, hout⟩
  · have hlen : ∀ row ∈ [(distinctItem rule.neighborhood.size).row],
        row.length = rule.neighborhood.size + 2 := by simpa using length_distinctItem _
    have hempty : CacheFits (r₂.types[·]?) none := by rintro _ ⟨⟩
    obtain ⟨out, hcomes, hout⟩ := hprep.comes hlen hempty
    exact absorbs_of_staysWithin hprep.fits hprep.closed hprep.same hcomes
      (hstays _ none out hlen hempty hout)
  · obtain ⟨out', hcomes, hout⟩ := hprep.comes hlen hcache
    obtain rfl : out' = out := Except.ok.inj (hout.symm.trans h)
    exact staysWithin_of_absorbs hprep.fits habs hlen hcomes

/-! ### Quarter turns and one reflection -/

/-- Quarter turns and one reflection under an operator, all at one place. -/
def crossed (op : String) (span : Span) : SymmetryExpr where
  op := op
  parts := [{ name := "rotate", args := ["4"], span := span },
    { name := "reflect", args := ["N", "S"], span := span }]
  span := span

lemma uncombined_crossed {span : Span} : (crossed "compose" span).Uncombined := by
  have hop : Text.lower "compose" ≠ "combine" := by cbv
  have hnone : Text.lower "" ≠ "combine" := by cbv
  simp [crossed, SymmetryExpr.Uncombined, SymmetryExpr.AllUncombined, hop, hnone]

def united : SymmetryExpr := crossed "combine" .nowhere

lemma succeeds_crossed {r : Registry} (hr : r.Sound) {op : String}
    (hop : Text.lower op = "compose" ∨ Text.lower op = "combine") (span : Span) :
    Registry.Succeeds r (Registry.declare .vonNeumann (crossed op span)) := by
  refine Registry.succeeds_operator hr hop (by simp) (fun e he r _ => ?_) span
  rcases List.mem_pair.mp he with rfl | rfl
  · have hname : Text.lower (Text.trim "rotate") = "rotate" := by cbv
    have hways : Text.readInt? (Text.trim "4") = some 4 := by cbv
    refine Registry.succeeds_declare ?_
    simp only [Registry.declareNamed, hname, hways]
    exact Registry.succeeds_rotate rfl
  · have hname : Text.lower (Text.trim "reflect") = "reflect" := by cbv
    have hlabels : Registry.directionLabels ["N", "S"] = .ok ["N", "S"] := by cbv
    refine Registry.succeeds_declare ?_
    simp only [Registry.declareNamed, hname, hlabels]
    exact Registry.succeeds_reflect rfl

lemma declareAll_united : Registry.Succeeds {} (Registry.declareAll .vonNeumann [united]) := by
  refine Registry.succeeds_declareAll Registry.sound_empty fun e he r hr => ?_
  obtain rfl := List.mem_singleton.mp he
  exact succeeds_crossed hr (.inr (by cbv)) .nowhere

theorem reduce_staysWithin_crossed :
    ∃ ts r₁ target r₂, runFrom (Registry.declareAll .vonNeumann [united]) {} = (.ok ts, r₁) ∧
      runFrom (Registry.minimal ts) r₁ = (.ok (some target), r₂) ∧
      ∃ rule : Rule, rule.neighborhood = .vonNeumann ∧ rule.symmetry ∈ ts ∧
        (∀ rows cache, (∀ row ∈ rows, row.length = 6) → CacheFits (r₂.types[·]?) cache →
          ∃ out, (runFrom (rule.reduce target rows) cache).1 = .ok out) ∧
        ((∀ rows cache out, (∀ row ∈ rows, row.length = 6) → CacheFits (r₂.types[·]?) cache →
          (runFrom (rule.reduce target rows) cache).1 = .ok out →
          rule.StaysWithin target rows out) ↔ Absorbs rule.symmetry target) := by
  obtain ⟨ts, r₁, hts⟩ := declareAll_united
  have hkeeps := Registry.keeps_declareAll Registry.sound_empty .vonNeumann [united]
  have hsound := hkeeps.sound
  have hpost := hkeeps.post ts (by rw [hts])
  rw [hts] at hsound hpost
  have hne : ts ≠ [] := List.ne_nil_of_length_eq_add_one (Registry.length_declareAll hts)
  obtain ⟨t, ht⟩ := List.exists_mem_of_ne_nil ts hne
  obtain ⟨m, r₂, hm⟩ := Registry.succeeds_minimal hsound hne fun t ht => (hpost t ht).2.1
  obtain ⟨target, rfl⟩ : ∃ target, m = some target := by
    have := (Registry.keeps_minimal hsound fun t ht => (hpost t ht).1).post m (by rw [hm])
    cases m with
    | none => exact absurd this hne
    | some target => exact ⟨target, rfl⟩
  exact ⟨ts, r₁, target, r₂, hts, hm, ⟨.vonNeumann, [], t, [], .nowhere⟩, rfl, ht,
    reduce_staysWithin_iff .start hts hm rfl ht⟩

end Rule

end RuleTable
