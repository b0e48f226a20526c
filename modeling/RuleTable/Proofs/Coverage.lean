import RuleTable.Proofs.Lines
import RuleTable.Proofs.Overmatching

/-!
What rows cover under a symmetry.

A row covers the tuples that it stands for and whatever the members of its symmetry make of their
napkins. Rows of one well-named scope stand for the same if the texts of their values are the same.
So it is enough for reduction to go by texts: under the class that a table is written under, what it
keeps covers exactly what the rows cover under the symmetry they were declared under, provided that
this is a group.
-/

namespace RuleTable

open Relabeling

/-- A row stands for the tuple after the symmetry has rearranged its napkin. -/
def Symmetry.Covers (t : Symmetry) (rows : List Row) (center : ℤ) (napkin : List ℤ) (result : ℤ) :
    Prop :=
  ∃ row ∈ rows, ∃ p ∈ t.relabelings, ∃ neighbors, napkin = p.apply neighbors ∧
    row.Matches (center :: neighbors ++ [result])

/-! ### Texts of values in a scope -/

section Scopes

variable {scope : Scope} {ok : String → Prop} {full : Prop} {u u' : Value}

lemma Value.same_of_key (hscope : scope.WellNamed ok) (h : u.Within full scope)
    (h' : u'.Within full scope) (hkey : u.key = u'.key) : u.Same u' := by
  cases u' with
  | free v o =>
    obtain ⟨w, rfl, hname⟩ := Value.exists_free_of_key hkey
    exact ⟨hscope.apart w h.mem v h'.mem hname, rfl⟩
  | state t d o =>
    cases u with
    | state t' d' o' => exact toString_int_inj hkey
    | free v o' =>
      obtain ⟨w, hw, -⟩ := Value.exists_free_of_key hkey.symm
      cases hw

lemma Value.unmarked_key (hmarks : ∀ v ∈ scope.vars, Rule.Unmarked v.name)
    (h : u.Within full scope) : Rule.Unmarked u.key := by
  refine Rule.unmarked_key fun v o he => hmarks v ?_
  subst he
  exact h.mem

lemma forall₂_same_of_keys (hscope : scope.WellNamed ok) {l l' : List Value}
    (hl : ∀ u ∈ l, u.Within full scope) (hl' : ∀ u ∈ l', u.Within full scope)
    (h : l.map Value.key = l'.map Value.key) : List.Forall₂ Value.Same l l' := by
  induction l generalizing l' with
  | nil =>
    obtain rfl := List.map_eq_nil_iff.mp h.symm
    exact .nil
  | cons u l ih =>
    cases l' with
    | nil => cases h
    | cons u' l' =>
      rw [List.forall_mem_cons] at hl hl'
      obtain ⟨hkey, h⟩ := List.cons.inj h
      exact .cons (Value.same_of_key hscope hl.1 hl'.1 hkey) (ih hl.2 hl'.2 h)

lemma forall₂_takes_of_same {l l' : List Value} {pick : ℤ → ℤ} {tuple : List ℤ}
    (h : List.Forall₂ Value.Same l l') (ht : List.Forall₂ (Value.Takes pick) l tuple) :
    List.Forall₂ (Value.Takes pick) l' tuple := by
  induction h generalizing tuple with
  | nil => exact ht
  | cons hu _ ih =>
    cases ht with
    | cons ht hrest => exact .cons (hu.takes ht) (ih hrest)

end Scopes

namespace Rule

variable {scope : Scope} {ok : String → Prop} {full : Prop} {n : ℕ} {p q : Relabeling}
  {item item' : Item} {c x : ℤ} {nap : List ℤ}

/-! ### Rearranged rows -/

lemma Item.matches_iff : item.row.Matches (c :: nap ++ [x]) ↔ ∃ pick : ℤ → ℤ,
    item.initial.Takes pick c ∧ List.Forall₂ (Value.Takes pick) item.napkin nap ∧
      item.result.Takes pick x := by
  refine exists_congr fun pick => ?_
  rw [Item.row, List.cons_append, List.cons_append, List.forall₂_cons]
  refine and_congr_right fun _ => ⟨fun h => ?_, ?_⟩
  · have hlen : item.napkin.length = nap.length := by simpa using h.length_eq
    have htake := List.forall₂_take_append _ _ _ h
    have hdrop := List.forall₂_drop_append _ _ _ h
    rw [← hlen] at htake hdrop
    exact ⟨by simpa using htake, by simpa using hdrop⟩
  · rintro ⟨hnap, hx⟩
    exact List.rel_append hnap (.cons hx .nil)

/-- Items whose keys agree once the napkins are rearranged stand for tuples that agree once they are
rearranged. -/
lemma Item.exists_matches (hscope : scope.WellNamed ok) (hin : item.row.Within full scope)
    (hin' : item'.row.Within full scope) (hlen : item.napkin.length = n)
    (hlen' : item'.napkin.length = n)
    (hp : IsPerm n p) (hq : IsPerm n q) (hends : item'.SameEnds item)
    (hkeys : q.apply (item'.napkin.map Value.key) = p.apply (item.napkin.map Value.key))
    (h : item'.row.Matches (c :: nap ++ [x])) :
    ∃ nap', q.apply nap = p.apply nap' ∧ item.row.Matches (c :: nap' ++ [x]) := by
  obtain ⟨pick, hc, hnap, hx⟩ := Item.matches_iff.mp h
  have hsize : nap.length = n := hnap.length_eq.symm.trans hlen'
  have hback := hp.apply_inverse (hq.length_apply hsize)
  have hmem : ∀ {i : Item}, i.initial ∈ i.row ∧ (∀ u ∈ i.napkin, u ∈ i.row) ∧ i.result ∈ i.row := by
    simp +contextual [Item.row]
  have hends₁ := Value.same_of_key hscope (hin' _ hmem.1) (hin _ hmem.1) hends.1
  have hends₂ := Value.same_of_key hscope (hin' _ hmem.2.2) (hin _ hmem.2.2) hends.2
  have hleft : ∀ u ∈ q.apply item'.napkin, u.Within full scope :=
    fun u hu => hin' _ (hmem.2.1 u (Symmetry.mem_of_mem_apply hu))
  have hright : ∀ u ∈ p.apply item.napkin, u.Within full scope :=
    fun u hu => hin _ (hmem.2.1 u (Symmetry.mem_of_mem_apply hu))
  have hsame := forall₂_same_of_keys hscope hleft hright (by rwa [← apply_map, ← apply_map])
  have hturned := forall₂_takes_of_same hsame (forall₂_apply (hq.lt_length hlen') hnap)
  refine ⟨p.inverse.apply (q.apply nap), hback.symm, Item.matches_iff.mpr
    ⟨pick, hends₁.takes hc, ?_, hends₂.takes hx⟩⟩
  rw [← hback] at hturned
  exact (hp.forall₂_apply_iff hlen (hp.inverse.length_apply (hq.length_apply hsize))).mp hturned

/-! ### Reduction -/

lemma Fits.isPerm_declared {rule : Rule} {target : Symmetry} (h : rule.Fits target)
    (hp : p ∈ rule.symmetry.relabelings) : IsPerm rule.neighborhood.size p :=
  h.declared_neighborhood ▸ Symmetry.isPerm_of_mem h.declared hp

lemma Fits.isPerm_written {rule : Rule} {target : Symmetry} (h : rule.Fits target)
    (hq : q ∈ target.relabelings) : IsPerm rule.neighborhood.size q :=
  h.written_neighborhood ▸ Symmetry.isPerm_of_mem h.written hq

section Reducing

variable {rule : Rule} {target : Symmetry} {r : Registry} {rows out : List Row}

lemma length_of_matches {row : Row} {nap : List ℤ} (h : row.Matches (c :: nap ++ [x]))
    (hlen : row.length = n + 2) : nap.length = n := by
  obtain ⟨pick, hp⟩ := h
  have := hp.length_eq
  simp only [hlen, List.cons_append, List.length_cons, List.length_append, List.length_nil] at this
  omega

/-- **Reduction keeps what is covered**: under the target what was kept covers what the target makes
of what the rows cover. -/
lemma reduce_covers (hprep : rule.Prepared target r) (hscope : scope.WellNamed ok)
    (hmarks : ∀ v ∈ scope.vars, Unmarked v.name)
    (hrows : ∀ row ∈ rows, row.length = rule.neighborhood.size + 2 ∧ row.Within full scope)
    (hout : Comes (rule.reduce target rows) out) : target.Covers out c nap x ↔
      ∃ q ∈ target.relabelings, ∃ nap', nap = q.apply nap' ∧
        rule.symmetry.Covers rows c nap' x := by
  have hlen : ∀ row ∈ rows, row.length = rule.neighborhood.size + 2 := fun row h => (hrows row h).1
  have hnap : ∀ {item : Item}, item.row ∈ rows → item.napkin.length = rule.neighborhood.size := by
    intro item h
    simpa [Item.row] using hlen _ h
  have hkeep : ∀ {item item' : Item}, item.row ∈ rows → Rearranges rule item item' →
      item'.napkin.length = rule.neighborhood.size ∧ item'.row.Within full scope := by
    intro item item' hitem hre
    refine ⟨?_, fun u hu => (hrows _ hitem).2 u (hre.mem _ hu)⟩
    simpa [Item.row] using hre.length hprep.fits (hlen _ hitem)
  have hgroup := Symmetry.isGroup hprep.fits.written hprep.closed
  rw [hprep.fits.written_neighborhood] at hgroup
  constructor
  · rintro ⟨row, hrow, q, hq, nap, rfl, hm⟩
    refine ⟨q, hq, nap, rfl, ?_⟩
    obtain ⟨item, item', hitem, rfl, hre⟩ := reduce_sound hprep.fits hlen hout row hrow
    obtain ⟨hlen', hin'⟩ := hkeep hitem hre
    obtain ⟨p, hp, hkeys⟩ := hre.napkin
    have hsame : (identity rule.neighborhood.size).apply (item'.napkin.map Value.key) =
        p.apply (item.napkin.map Value.key) := by
      rw [apply_identity (by rw [List.length_map, hlen']), hkeys]
    obtain ⟨nap', he, hm'⟩ := Item.exists_matches hscope (hrows _ hitem).2 hin' (hnap hitem) hlen'
      (hprep.fits.isPerm_declared hp) (isPerm_identity _) ⟨by rw [hre.initial], by rw [hre.result]⟩
      hsame hm
    rw [apply_identity (length_of_matches hm (by simp [Item.row, hlen']))] at he
    exact ⟨item.row, hitem, p, hp, nap', he, hm'⟩
  · rintro ⟨q, hq, -, rfl, row, hrow, p, hp, nap, rfl, hm⟩
    obtain ⟨item, rfl, -⟩ := exists_item (hlen row hrow)
    have hkeys : ∀ row ∈ rows, ∀ u ∈ row, Unmarked u.key :=
      fun row h u hu => Value.unmarked_key hmarks ((hrows row h).2 u hu)
    -- some row was kept from which the target makes the rearranged row, and then the target goes on
    obtain ⟨item', hitem', hends, q', hq', hsame⟩ := reduce_complete hprep.fits hprep.closed
      hprep.same hlen hkeys hout hrow hp
    obtain ⟨item₁, item₂, hitem₁, hrow₂, hre⟩ := reduce_sound hprep.fits hlen hout _ hitem'
    obtain rfl := Item.row_inj hrow₂
    obtain ⟨hlen', hin'⟩ := hkeep hitem₁ hre
    obtain ⟨nap', he, hm'⟩ := Item.exists_matches hscope hin' (hrows _ hrow).2 hlen' (hnap hrow)
      (hprep.fits.isPerm_written hq') (hprep.fits.isPerm_declared hp)
      ⟨hends.1.symm, hends.2.symm⟩ hsame.symm hm
    refine ⟨item'.row, hitem', q'.andThen q, hgroup.mul q' hq' q hq, nap', ?_, hm'⟩
    rw [he, (hgroup.perm q' hq').apply_andThen (hgroup.perm q hq)
      (length_of_matches hm' (by simp [Item.row, hlen']))]

/-- A group makes nothing new of what it covers. -/
lemma covers_iff_of_group {t : Symmetry} {s : List Relabeling} (hgroup : IsGroup n t.relabelings)
    (hs : ∀ q ∈ s, q ∈ t.relabelings) (hone : identity n ∈ s)
    (hrows : ∀ row ∈ rows, row.length = n + 2) :
    (∃ q ∈ s, ∃ nap', nap = q.apply nap' ∧ t.Covers rows c nap' x) ↔ t.Covers rows c nap x := by
  constructor
  · rintro ⟨q, hq, -, rfl, row, hrow, p, hp, nap, rfl, hm⟩
    refine ⟨row, hrow, p.andThen q, hgroup.mul p hp q (hs q hq), nap, ?_, hm⟩
    rw [(hgroup.perm p hp).apply_andThen (hgroup.perm q (hs q hq))
      (length_of_matches hm (hrows row hrow))]
  · rintro ⟨row, hrow, p, hp, nap, rfl, hm⟩
    refine ⟨_, hone, p.apply nap, ?_, row, hrow, p, hp, nap, rfl, hm⟩
    rw [apply_identity ((hgroup.perm p hp).length_apply (length_of_matches hm (hrows row hrow)))]

end Reducing

end Rule

end RuleTable
