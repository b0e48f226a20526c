import RuleTable.Proofs.Expansion
import RuleTable.Transition.Auxiliary

/-!
What auxiliary rows say.

The surroundings of a cell that changes along with the acting one are laid out from the row of the
acting cell. A value of that row becomes a literal or a variable of its own, and a further
occurrence of a variable is bound to the first; so the slots of the new layout stand for what the
slots of the row stand for, and what the row cannot see is any state.
-/

namespace RuleTable

/-! ### Values of rows -/

/-- What a value stands for when `choice` gives the index of every occurrence by its origin. -/
def Value.StandsFor (choice : ℤ → ℕ) : Value → Stand → Prop
  | .state s drawn _, x => x = Cell.standOf s drawn
  | .free v origin, x => x.At v.states (choice origin % v.states.length)

lemma Value.standsFor_congr {v : Value} {choice choice' : ℤ → ℕ}
    (h : ∀ w o, v = .free w o → choice o = choice' o) {x : Stand} :
    v.StandsFor choice x ↔ v.StandsFor choice' x := by
  cases v with
  | state s drawn o => exact Iff.rfl
  | free w o => rw [StandsFor, StandsFor, h w o rfl]

/-- States have their place in the variable they were drawn from, variables have several states, and
occurrences of one origin are of one variable. -/
structure Row.Proper (row : Row) : Prop where
  drawn : ∀ s d o, .state s d o ∈ row → Cell.Proper (.literal s d)
  several : ∀ v o, .free v o ∈ row → v.states.unique? = none
  same : ∀ v w o, .free v o ∈ row → .free w o ∈ row → v = w

/-- If the next state is a variable, the same occurrence of it stands in an earlier slot. -/
def Row.Determined (row : Row) : Prop :=
  ∀ v o, row.getLast? = some (.free v o) → .free v o ∈ row.dropLast

namespace Cell

variable {cells : List Cell} {values : Slots} {s s' : Scope} {span : Span} {rows : List Row}
  {tuple : List Int}

lemma Complete.proper {row : Row} (hrow : Complete values row) (hs : Sound cells values) :
    row.Proper := by
  have hmem : ∀ v ∈ row, ∃ i : ℕ, Cell.valueAt values i = some v := by
    intro v hv
    obtain ⟨i, hi, rfl⟩ := List.getElem_of_mem hv
    exact ⟨i, (hrow.valueAt i).trans (List.getElem?_eq_getElem hi)⟩
  refine ⟨fun t d o h => ?_, fun v o h => ?_, fun v w o h h' => ?_⟩
  · obtain ⟨i, hi⟩ := hmem _ h
    have hh : Holds cells i (.state t d o) := hs.holds i _ hi
    exact hh.1
  · obtain ⟨i, hi⟩ := hmem _ h
    have hh : Holds cells i (.free v o) := hs.holds i _ hi
    obtain ⟨j, -, hj, -⟩ := hh
    exact hj.1
  · obtain ⟨i, hi⟩ := hmem _ h
    obtain ⟨k, hk⟩ := hmem _ h'
    have hh : Holds cells i (.free v o) := hs.holds i _ hi
    obtain ⟨j, rfl, -⟩ := hh
    have hv := hs.origin i j v hi
    rw [hs.origin k j w hk] at hv
    cases hv
    rfl

/-- A variable in the last slot belongs to another slot, and is known there. -/
lemma Complete.determined {row : Row} (hrow : Complete values row) (hs : Sound cells values)
    (hsize : values.size = cells.length) : row.Determined := by
  have hlen : row.length = cells.length := by
    rw [← hsize, ← Array.length_toList, hrow, List.length_map]
  intro v o h
  rw [List.getLast?_eq_getElem?, ← hrow.valueAt, hlen] at h
  have hh : Holds cells (cells.length - 1) (.free v o) := hs.holds _ _ h
  obtain ⟨j, rfl, -⟩ := hh
  have hj := hs.origin _ j v h
  have hne : j ≠ cells.length - 1 := by
    rintro rfl
    exact hs.result v h
  have hlt : j < cells.length := hsize ▸ lt_size_of_valueAt hj
  rw [hrow.valueAt] at hj
  rw [List.dropLast_eq_take]
  refine List.mem_of_getElem? (i := j) ?_
  rw [List.getElem?_take_of_lt (by omega), hj]

/-- Every row of a layout comes of slots that are all known, once some cells have become
literals. -/
lemma RowOf.settles {row : Row} (hproper : ∀ c ∈ cells, Proper c) (h : RowOf span cells s row s') :
    ∃ (cells' : List Cell) (values : Slots), cells'.length = cells.length ∧
      Sound cells' values ∧ values.size = cells'.length ∧ Complete values row := by
  induction h with
  | settled h hrow =>
    obtain ⟨⟨hs, -⟩, -⟩ := settleAll_ok hproper (sound_replicate _ _) Array.size_replicate h
    exact ⟨_, _, rfl, hs, (settleAll_complete h).1, hrow⟩
  | split h hk _ _ _ ih =>
    obtain ⟨⟨j, rfl, -, -⟩, -⟩ := settleAll_ok hproper (sound_replicate _ _) Array.size_replicate h
    obtain ⟨cells', values, hlen, hrest⟩ := ih (proper_set hproper hk)
    exact ⟨cells', values, by rw [hlen, List.length_set], hrest⟩

lemma branch_proper {splits : ℕ} (hproper : ∀ c ∈ cells, Proper c)
    (h : runFrom (branch span splits cells) s = (.ok rows, s')) :
    ∀ row ∈ rows, row.Proper ∧ row.length = cells.length := by
  intro row hrow
  obtain ⟨cells', values, hlen, hs, hsize, hrow⟩ := (rowOf_of_mem_branch h row hrow).settles hproper
  exact ⟨hrow.proper hs, by rw [← hlen, ← hsize, ← Array.length_toList, hrow, List.length_map]⟩

/-- **The next state of a row** is a state or stands in an earlier slot. -/
lemma expand_determined (hproper : ∀ c ∈ cells, Proper c)
    (h : runFrom (expand cells span) s = (.ok rows, s')) : ∀ row ∈ rows, row.Determined := by
  obtain ⟨all, s₁, hall, h⟩ := runFrom_bind_ok.mp h
  cases h
  intro row hrow
  obtain ⟨cells', values, -, hs, hsize, hrow⟩ :=
    (rowOf_of_mem_branch hall row (Row.mem_of_mem_distinct hrow)).settles hproper
  exact hrow.determined hs hsize

lemma expand_proper (hproper : ∀ c ∈ cells, Proper c)
    (h : runFrom (expand cells span) s = (.ok rows, s')) :
    ∀ row ∈ rows, row.Proper ∧ row.length = cells.length := by
  obtain ⟨all, s₁, hall, h⟩ := runFrom_bind_ok.mp h
  cases h
  exact fun row hrow => branch_proper hproper hall row (Row.mem_of_mem_distinct hrow)

/-- The rows of a layout stand for exactly its tuples. -/
lemma expand_ok (hproper : ∀ c ∈ cells, Proper c)
    (h : runFrom (expand cells span) s = (.ok rows, s')) :
    (∃ choice, Tuple cells choice tuple) ↔ ∃ row ∈ rows, row.Matches tuple := by
  obtain ⟨all, s₁, hall, h⟩ := runFrom_bind_ok.mp h
  cases h
  rw [Row.exists_distinct_matches (branch_pairwise hall)]
  exact branch_ok hproper hall

end Cell

/-! ### Directions as slots -/

namespace Neighborhood

/-- The cells that a cell knows, by slot: itself and its neighbors. -/
def sites (nb : Neighborhood) : List Direction := .c :: nb.directions

lemma slotOf_eq_some_iff (nb : Neighborhood) (d : Direction) (k : ℕ) :
    Rule.slotOf nb d = some k ↔ nb.sites[k]? = some d := by
  have hto : ∀ nb ∈ Neighborhood.all, ∀ d ∈ Direction.all, ∀ k ∈ Rule.slotOf nb d,
      nb.sites[k]? = some d := by decide
  have hof : ∀ nb ∈ Neighborhood.all, ∀ k < nb.sites.length, ∀ d ∈ nb.sites[k]?,
      Rule.slotOf nb d = some k := by decide
  have hnb : nb ∈ Neighborhood.all := by cases nb <;> decide
  have hd : d ∈ Direction.all := by cases d <;> decide
  exact ⟨hto nb hnb d hd k, fun h => hof nb hnb k (List.getElem?_eq_some_iff.mp h).1 d h⟩

end Neighborhood

namespace Direction

lemma ofOffset?_eq_some_iff (east north : ℤ) (d : Direction) :
    ofOffset? east north = some d ↔ d.offset = (east, north) := by
  constructor
  · intro h
    simpa using List.find?_some h
  · intro h
    rw [ofOffset?, ← h]
    cases d <;> rfl

lemma translate_eq_some_iff (target d site : Direction) :
    translate target d = some site ↔ site.offset = target.offset + d.offset :=
  ofOffset?_eq_some_iff _ _ _

lemma reproject_eq_some_iff (target site d : Direction) :
    reproject target site = some d ↔ site.offset = target.offset + d.offset := by
  rw [reproject, ofOffset?_eq_some_iff, Prod.ext_iff, Prod.ext_iff]
  simp only [Prod.fst_add, Prod.snd_add]
  omega

end Direction

namespace Rule

/-! ### Laying out what is seen -/

/-- Appends what is seen in a direction, or any state where nothing is. -/
def Frame.add (any : Variable) (span : Span) (f : Frame) : Option Value → Frame
  | some v => f.place span v
  | none => { f with cells := f.cells ++ [.free any] }

/-- The slot that took over the variable of an origin. -/
def Frame.ownerOf (f : Frame) (origin : ℤ) : ℕ := (f.owners.lookup origin).getD 0

/-- The cells lay out the entries: the first occurrence of a variable is free, a later one is bound
to it. -/
structure Frame.Laid (any : Variable) (span : Span) (entries : List (Option Value)) (f : Frame) :
    Prop where
  length : f.cells.length = entries.length
  unseen : ∀ i : ℕ, entries[i]? = some none → f.cells[i]? = some (.free any)
  state : ∀ (i : ℕ) s d o, entries[i]? = some (some (.state s d o)) →
    f.cells[i]? = some (.literal s d)
  free : ∀ (i : ℕ) v o, entries[i]? = some (some (.free v o)) →
    ∃ j, f.owners.lookup o = some j ∧ (i ≠ j → f.cells[i]? = some (.binding j span))
  owner : ∀ o j, f.owners.lookup o = some j →
    ∃ v, entries[j]? = some (some (.free v o)) ∧ f.cells[j]? = some (.free v)

variable {any : Variable} {span : Span} {entries : List (Option Value)} {f : Frame}

lemma lookup_append_singleton (owners : List (ℤ × ℕ)) (o o' : ℤ) (j j' : ℕ) :
    (owners ++ [(o, j)]).lookup o' = some j' ↔
      owners.lookup o' = some j' ∨ owners.lookup o' = none ∧ o' = o ∧ j' = j := by
  rw [List.lookup_append, List.lookup_cons, List.lookup_nil]
  by_cases h : o' = o
  · cases owners.lookup o' <;> simp [h, eq_comm]
  · rw [beq_false_of_ne h]
    cases owners.lookup o' <;> simp [h]

lemma Frame.laid_nil : (Frame.mk [] []).Laid any span [] := by
  constructor <;> simp

/-- One more entry. Where its variable has an owner already the owner stays, and where it has none
the new slot becomes it. -/
lemma Frame.Laid.add (h : f.Laid any span entries) (entry : Option Value) :
    (f.add any span entry).Laid any span (entries ++ [entry]) := by
  obtain ⟨hlen, hunseen, hstate, hfree, howner⟩ := h
  cases entry with
  | none => constructor <;> simp only [Frame.add] <;> grind
  | some v =>
    cases v with
    | state s d o => constructor <;> simp only [Frame.add, Frame.place] <;> grind
    | free v o =>
      cases ho : f.owners.lookup o with
      | some j => constructor <;> simp only [Frame.add, Frame.place, ho] <;> grind
      | none =>
        have hnew : (entries ++ [some (.free v o)])[f.cells.length]? = some (some (.free v o)) ∧
            (f.cells ++ [.free v])[f.cells.length]? = some (.free v) := by simp [hlen]
        constructor <;> simp only [Frame.add, Frame.place, ho, lookup_append_singleton] <;> grind

lemma Frame.Laid.foldl (h : f.Laid any span entries) (more : List (Option Value)) :
    (more.foldl (Frame.add any span) f).Laid any span (entries ++ more) := by
  induction more generalizing f entries with
  | nil => rwa [List.append_nil]
  | cons entry more ih =>
    rw [List.foldl_cons, List.append_cons]
    exact ih (h.add entry)

/-- A slot that was seen stands for what the row has there, when an origin takes the index of the
slot that owns its variable. -/
lemma Frame.Laid.stands_seen {row : Row} (h : f.Laid any span entries) (hrow : row.Proper)
    (hmem : ∀ v, some v ∈ entries → v ∈ row) {c : Cell} {choice : ℕ → ℕ} {i : ℕ} {v : Value}
    (hi : entries[i]? = some (some v)) {x : Stand} :
    Cell.Stands (f.cells ++ [c]) choice i x ↔ v.StandsFor (fun o => choice (f.ownerOf o)) x := by
  have hget : ∀ {i c'}, f.cells[i]? = some c' → (f.cells ++ [c])[i]? = some c' := fun hc =>
    (List.getElem?_append_left (List.getElem?_eq_some_iff.mp hc).1).trans hc
  have hv : v ∈ row := hmem v (List.mem_of_getElem? hi)
  cases v with
  | state s d o => exact Cell.stands_own_iff (hget (h.state i s d o hi)) rfl
  | free v o =>
    obtain ⟨j, hj, hbound⟩ := h.free i v o hi
    obtain ⟨w, hw, hcell⟩ := h.owner o j hj
    obtain rfl : w = v := hrow.same w v o (hmem _ (List.mem_of_getElem? hw)) hv
    have howner : f.ownerOf o = j := by rw [Frame.ownerOf, hj, Option.getD_some]
    have hown : Cell.Stands (f.cells ++ [c]) choice j x ↔
        x.At w.states (choice j % w.states.length) := by
      rw [Cell.stands_own_iff (hget hcell) rfl, Cell.Own, hrow.several w o hv]
      rfl
    rw [Value.StandsFor, howner, ← hown]
    by_cases hij : i = j
    · rw [hij]
    · rw [Cell.stands_linked_iff (hget (hbound hij)) rfl]
      constructor
      · rintro ⟨y, hy, rfl⟩
        exact hy
      · exact fun hx => ⟨x, hx, rfl⟩

lemma Frame.Laid.stands_unseen (h : f.Laid any span entries) {c : Cell} {choice : ℕ → ℕ} {i : ℕ}
    (hi : entries[i]? = some none) {x : Stand} :
    Cell.Stands (f.cells ++ [c]) choice i x ↔ (Cell.free any).Own (choice i) x := by
  have hc := h.unseen i hi
  refine Cell.stands_own_iff ?_ rfl
  rw [List.getElem?_append_left (List.getElem?_eq_some_iff.mp hc).1, hc]

/-! ### Seeing through the row of the acting cell -/

/-- What the row knows of the cell that lies at `d` from `target`. -/
def seen (nb : Neighborhood) (row : Row) (target d : Direction) : Option Value :=
  (Direction.translate target d).bind fun site => (slotOf nb site).bind fun slot => row[slot]?

variable {nb : Neighborhood} {row : Row} {target d : Direction} {s s' : Scope}

lemma seen_eq_some_iff {v : Value} : seen nb row target d = some v ↔
    ∃ (k : ℕ) (site : Direction), nb.sites[k]? = some site ∧
      site.offset = target.offset + d.offset ∧ row[k]? = some v := by
  simp only [seen, Option.bind_eq_some_iff, Direction.translate_eq_some_iff,
    Neighborhood.slotOf_eq_some_iff]
  constructor
  · rintro ⟨site, hsite, k, hk, hv⟩
    exact ⟨k, site, hk, hsite, hv⟩
  · rintro ⟨k, site, hk, hsite, hv⟩
    exact ⟨site, hsite, k, hk, hv⟩

lemma seen_eq_none_iff (hlen : nb.sites.length ≤ row.length) : seen nb row target d = none ↔
    ∀ site ∈ nb.sites, site.offset ≠ target.offset + d.offset := by
  constructor
  · intro h site hsite he
    obtain ⟨k, hk, rfl⟩ := List.getElem_of_mem hsite
    have hv := seen_eq_some_iff.mpr ⟨k, _, List.getElem?_eq_getElem hk, he,
      List.getElem?_eq_getElem (hk.trans_le hlen)⟩
    rw [h] at hv
    cases hv
  · intro h
    cases hv : seen nb row target d with
    | none => rfl
    | some v =>
      obtain ⟨k, site, hk, he, -⟩ := seen_eq_some_iff.mp hv
      exact absurd he (h site (List.mem_of_getElem? hk))

lemma mem_of_seen {v : Value} (h : seen nb row target d = some v) : v ∈ row := by
  obtain ⟨k, site, -, -, hv⟩ := seen_eq_some_iff.mp h
  exact List.mem_of_getElem? hv

lemma mem_of_mem_seen {sites : List Direction} :
    ∀ v, some v ∈ sites.map (seen nb row target) → v ∈ row := by
  intro v hv
  obtain ⟨d, -, hd⟩ := List.mem_map.mp hv
  exact mem_of_seen hd

/-- The slot of the center is the first, and there the cell at `target` is seen. -/
lemma seen_c (htarget : target ∈ nb.sites) :
    seen nb row target .c = row[(slotOf nb target).getD 0]? := by
  obtain ⟨k, hk, rfl⟩ := List.getElem_of_mem htarget
  have hslot := (nb.slotOf_eq_some_iff _ k).mpr (List.getElem?_eq_getElem hk)
  have hhere : Direction.translate nb.sites[k] .c = some nb.sites[k] :=
    (Direction.translate_eq_some_iff _ _ _).mpr (by simp [Direction.offset])
  rw [seen, hhere, Option.bind_some, hslot]
  rfl

lemma reframe_ok {rule : Rule} {aux : Auxiliary} {cells : List Cell}
    (htarget : target ∈ rule.neighborhood.sites)
    (h : runFrom (rule.reframe row aux target) s = (.ok cells, s')) :
    ∃ (any : Variable) (c : Cell) (f : Frame), s.lookup "any" = some any ∧
      revalue rule.neighborhood aux target = .ok c ∧
      f.Laid any aux.span (rule.neighborhood.sites.map (seen rule.neighborhood row target)) ∧
      cells = f.cells ++ [c] ∧ s' = s := by
  unfold reframe at h
  rw [runFrom_bind, runFrom_get] at h
  cases hany : s.lookup "any" with
  | none => simp [hany] at h
  | some any =>
    cases hself : row[(slotOf rule.neighborhood target).getD 0]? with
    | none => simp [hany, hself] at h
    | some self =>
      simp only [hany, hself] at h
      obtain ⟨c, s₁, hc, h⟩ := runFrom_bind_ok.mp h
      rw [runFrom_outcome, Prod.mk.injEq] at hc
      cases h
      refine ⟨any, c, (rule.neighborhood.sites.map (seen rule.neighborhood row target)).foldl
        (Frame.add any aux.span) ⟨[], []⟩, rfl, hc.1, Frame.laid_nil.foldl _, ?_, hc.2.symm⟩
      rw [Neighborhood.sites, List.map_cons, List.foldl_cons, seen_c htarget, hself,
        List.foldl_map]
      rfl

lemma Cell.image_withRef {k : ℕ} {c : Cell} {j : ℤ} {x y : Stand} :
    (c.withRef j).Image k y x ↔ c.Image k y x := by
  cases c with
  | operation ref op count operand span => cases op <;> exact Iff.rfl
  | _ => exact Iff.rfl

/-- A value that refers to the cell at `site` refers to the slot where the cell at `target` sees
it. -/
lemma revalue_site {aux : Auxiliary} {c : Cell} {site : Direction} {k : ℕ}
    (hsite : nb.sites[k]? = some site)
    (h : (match (Direction.reproject target site).bind (slotOf nb) with
      | some slot => pure (aux.value.withRef slot)
      | none => refuse aux.span (.notVisible site.label target.label) : Outcome Cell) = .ok c) :
    ∃ slot : ℕ, c = aux.value.withRef slot ∧ ∀ (row : Row) v, row[k]? = some v →
      (nb.sites.map (seen nb row target))[slot]? = some (some v) := by
  split at h
  · next slot hslot =>
    cases h
    obtain ⟨d, hd, hk⟩ := Option.bind_eq_some_iff.mp hslot
    rw [nb.slotOf_eq_some_iff] at hk
    rw [Direction.reproject_eq_some_iff] at hd
    refine ⟨slot, rfl, fun row v hv => ?_⟩
    rw [List.getElem?_map, hk, Option.map_some, seen_eq_some_iff.mpr ⟨k, site, hsite, hd, hv⟩]
  · cases h

lemma revalue_ok {aux : Auxiliary} {c : Cell} (h : revalue nb aux target = .ok c) :
    (aux.value.ref? = none ∧ c = aux.value) ∨
      ∃ (ref : ℤ) (slot : ℕ), aux.value.ref? = some ref ∧ c = aux.value.withRef slot ∧
        ref.toNat < nb.sites.length ∧ ∀ (row : Row) v, row[ref.toNat]? = some v →
          (nb.sites.map (seen nb row target))[slot]? = some (some v) := by
  unfold revalue at h
  cases hr : aux.value.ref? with
  | none =>
    rw [hr] at h
    cases h
    exact .inl ⟨rfl, rfl⟩
  | some ref =>
    simp only [hr] at h
    refine .inr ⟨ref, ?_⟩
    split at h
    · next hle =>
      have hsite : nb.sites[ref.toNat]? = some .c := by
        rw [Int.toNat_of_nonpos hle]
        rfl
      obtain ⟨slot, hc, hseen⟩ := revalue_site hsite h
      exact ⟨slot, rfl, hc, (List.getElem?_eq_some_iff.mp hsite).1, hseen⟩
    · next hlt =>
      obtain ⟨k, hk⟩ : ∃ k, ref.toNat = k + 1 := ⟨ref.toNat - 1, by omega⟩
      rw [hk, Nat.add_sub_cancel] at h
      rw [hk]
      split at h
      · next d hd =>
        have hsite : nb.sites[k + 1]? = some d := hd
        obtain ⟨slot, hc, hseen⟩ := revalue_site hsite h
        exact ⟨slot, rfl, hc, (List.getElem?_eq_some_iff.mp hsite).1, hseen⟩
      · cases h

/-! ### What the acting cell knows -/

/-- Under the choice, the row has the state `t` at a cell that the acting one knows. -/
def SeenAt (nb : Neighborhood) (row : Row) (choice : ℤ → ℕ) (site : Direction) (t : ℤ) : Prop :=
  ∃ (k : ℕ) (v : Value) (x : Stand), nb.sites[k]? = some site ∧ row[k]? = some v ∧
    v.StandsFor choice x ∧ x.state = t

/-- Under the choice, the cell comes to `x` when it refers to the slots of the row. A cell that is
free by itself may come to any of its states. -/
def Evaluates (row : Row) (choice : ℤ → ℕ) (c : Cell) (x : Stand) : Prop :=
  ∃ k, match c.ref? with
    | none => c.Own k x
    | some ref => ∃ v y, row[ref.toNat]? = some v ∧ v.StandsFor choice y ∧ c.Image k y x

/-- The tuple is one for the cell at `target` that agrees with the row of the acting cell under the
choice. Its slots are the cell at `target` itself, the neighbors of that cell, and its next state.
Where the acting cell knows a cell, the state is the one it has there; otherwise it is any of the
`n` states; and the next state is the auxiliary value as the acting cell reads it. -/
structure Foreseen (nb : Neighborhood) (row : Row) (n : ℤ) (value : Cell) (target : Direction)
    (choice : ℤ → ℕ) (tuple : List ℤ) : Prop where
  size : tuple.length = nb.sites.length + 1
  seen : ∀ (i : ℕ) (d site : Direction) (t : ℤ), nb.sites[i]? = some d → tuple[i]? = some t →
    site ∈ nb.sites → site.offset = target.offset + d.offset → SeenAt nb row choice site t
  unseen : ∀ (i : ℕ) (d : Direction) (t : ℤ), nb.sites[i]? = some d → tuple[i]? = some t →
    (∀ site ∈ nb.sites, site.offset ≠ target.offset + d.offset) → 0 ≤ t ∧ t < n
  result : ∀ t, tuple[nb.sites.length]? = some t → ∃ x, Evaluates row choice value x ∧ x.state = t

section Reframed

variable {aux : Auxiliary} {c : Cell} {n : ℤ} {choice : ℤ → ℕ} {tuple : List ℤ}

/-- The value of a laid out auxiliary stands for what it comes to against the row. -/
lemma stands_revalue (hrow : row.Proper) (hlen : nb.sites.length ≤ row.length)
    (hlaid : f.Laid any span (nb.sites.map (seen nb row target)))
    (hc : revalue nb aux target = .ok c) {pick : ℕ → ℕ} {x : Stand} :
    Cell.Stands (f.cells ++ [c]) pick nb.sites.length x ↔
      match aux.value.ref? with
      | none => aux.value.Own (pick nb.sites.length) x
      | some ref => ∃ v y, row[ref.toNat]? = some v ∧
          v.StandsFor (fun o => pick (f.ownerOf o)) y ∧
          aux.value.Image (pick nb.sites.length) y x := by
  have hlast : (f.cells ++ [c])[nb.sites.length]? = some c := by
    rw [← List.length_map (seen nb row target), ← hlaid.length, List.getElem?_concat_length]
  obtain ⟨hr, rfl⟩ | ⟨ref, slot, hr, rfl, hlt, hseen⟩ := revalue_ok hc
  · rw [Cell.stands_own_iff hlast hr, hr]
  · have hr' : (aux.value.withRef slot).ref? = some (slot : ℤ) := by
      cases hv : aux.value <;> simp_all [Cell.ref?, Cell.withRef]
    have hv := List.getElem?_eq_getElem (hlt.trans_le hlen)
    rw [Cell.stands_linked_iff hlast hr', hr]
    simp only [hlaid.stands_seen hrow mem_of_mem_seen (hseen row _ hv), Cell.image_withRef, hv,
      Option.some.injEq, exists_and_left, exists_eq_left']

/-- The index that a slot of the layout takes: that of its origin, or that of the state where
nothing is seen. The last slot takes `k`. -/
def pickOf (nb : Neighborhood) (row : Row) (target : Direction) (choice : ℤ → ℕ) (tuple : List ℤ)
    (states : StateList) (k : ℕ) (i : ℕ) : ℕ :=
  match (nb.sites.map (seen nb row target))[i]? with
  | some (some (.free _ o)) => choice o
  | some (some (.state _ _ _)) => 0
  | some none => states.idxOf (tuple.getD i 0)
  | none => k

/-- A value that is seen stands for the same, whether its index comes from its origin or from the
slot that owns its variable. -/
lemma standsFor_pickOf (hlaid : f.Laid any span (nb.sites.map (seen nb row target)))
    {states : StateList} {k i : ℕ} {v : Value}
    (hi : (nb.sites.map (seen nb row target))[i]? = some (some v)) {x : Stand} :
    v.StandsFor (fun o => pickOf nb row target choice tuple states k (f.ownerOf o)) x ↔
      v.StandsFor choice x := by
  refine Value.standsFor_congr fun w o hw => ?_
  obtain ⟨j, hj, -⟩ := hlaid.free i w o (hw ▸ hi)
  obtain ⟨w', hw', -⟩ := hlaid.owner o j hj
  rw [Frame.ownerOf, hj, Option.getD_some, pickOf, hw']

lemma exists_own_free {v : Variable} {t : ℤ} (ht : t ∈ v.states) :
    ∃ x, (Cell.free v).Own (v.states.idxOf t) x ∧ x.state = t := by
  have hlt := List.idxOf_lt_length_iff.mpr ht
  have hat : v.states[if v.states.unique?.isSome then 0 else
      v.states.idxOf t % v.states.length]? = some t := by
    split
    · next h =>
      cases hs : v.states with
      | nil => simp [hs] at ht
      | cons a rest =>
        rw [hs] at h ht
        simp only [StateList.unique?, Option.isSome_ite, List.all_eq_true, beq_iff_eq] at h
        rcases List.mem_cons.mp ht with rfl | ht
        · rfl
        · rw [h t ht]
          rfl
    · rw [Nat.mod_eq_of_lt hlt, List.getElem?_eq_getElem hlt, List.getElem_idxOf]
  exact ⟨⟨t, v.states, _⟩, ⟨rfl, rfl, hat⟩, rfl⟩

lemma getElem?_seen (row : Row) (target : Direction) {i : ℕ} {d : Direction}
    (hd : nb.sites[i]? = some d) :
    (nb.sites.map (seen nb row target))[i]? = some (seen nb row target d) := by
  rw [List.getElem?_map, hd, Option.map_some]

lemma mem_states_iff (hany : any.states = (List.range n.toNat).map Int.ofNat) {t : ℤ} :
    t ∈ any.states ↔ 0 ≤ t ∧ t < n := by
  rw [hany, List.mem_map]
  constructor
  · rintro ⟨k, hk, rfl⟩
    rw [List.mem_range] at hk
    exact ⟨by simp, by simp; omega⟩
  · intro ht
    exact ⟨t.toNat, List.mem_range.mpr (by omega), by simp [ht.1]⟩

lemma length_reframed (hlaid : f.Laid any span (nb.sites.map (seen nb row target))) :
    (f.cells ++ [c]).length = nb.sites.length + 1 := by
  rw [List.length_append, hlaid.length, List.length_map, List.length_singleton]

/-- What the layout for the cell at `target` takes is foreseen, the indices being those of the slots
that own the variables. -/
lemma foreseen_of_tuple (hrow : row.Proper) (hlen : nb.sites.length ≤ row.length)
    (hlaid : f.Laid any span (nb.sites.map (seen nb row target)))
    (hany : any.states = (List.range n.toNat).map Int.ofNat)
    (hc : revalue nb aux target = .ok c) {pick : ℕ → ℕ}
    (h : Cell.Tuple (f.cells ++ [c]) pick tuple) :
    Foreseen nb row n aux.value target (fun o => pick (f.ownerOf o)) tuple where
  size := h.1.trans (length_reframed hlaid)
  seen := by
    intro i d site t hd ht hsite hoff
    obtain ⟨x, hx, hxt⟩ := h.2 i t ht
    obtain ⟨k, hk, rfl⟩ := List.getElem_of_mem hsite
    have hk' := List.getElem?_eq_getElem hk
    have hv := List.getElem?_eq_getElem (hk.trans_le hlen)
    have hi := getElem?_seen row target hd
    rw [seen_eq_some_iff.mpr ⟨k, _, hk', hoff, hv⟩] at hi
    exact ⟨k, _, x, hk', hv, (hlaid.stands_seen hrow mem_of_mem_seen hi).mp hx, hxt⟩
  unseen := by
    intro i d t hd ht hoff
    obtain ⟨x, hx, rfl⟩ := h.2 i t ht
    have hi := getElem?_seen row target hd
    rw [(seen_eq_none_iff hlen).mpr hoff] at hi
    obtain ⟨-, -, hx⟩ := hlaid.stands_unseen hi |>.mp hx
    exact (mem_states_iff hany).mp (List.mem_of_getElem? hx)
  result := by
    intro t ht
    obtain ⟨x, hx, hxt⟩ := h.2 _ t ht
    exact ⟨x, ⟨_, (stands_revalue hrow hlen hlaid hc).mp hx⟩, hxt⟩

/-- A slot around the cell at `target` takes the state that is foreseen there. -/
lemma exists_stands_of_foreseen (h : Foreseen nb row n aux.value target choice tuple)
    (hrow : row.Proper) (hlen : nb.sites.length ≤ row.length)
    (hlaid : f.Laid any span (nb.sites.map (seen nb row target)))
    (hany : any.states = (List.range n.toNat).map Int.ofNat) {k i : ℕ} {t : ℤ}
    (hi : i < nb.sites.length) (ht : tuple[i]? = some t) :
    ∃ x, Cell.Stands (f.cells ++ [c]) (pickOf nb row target choice tuple any.states k) i x ∧
      x.state = t := by
  have hd := List.getElem?_eq_getElem hi
  have hat := getElem?_seen row target hd
  cases hv : seen nb row target nb.sites[i] with
  | some v =>
    rw [hv] at hat
    obtain ⟨l, site, hl, hoff, hv'⟩ := seen_eq_some_iff.mp hv
    obtain ⟨l', v', y, hl', hrow', hy, hyt⟩ :=
      h.seen i _ site t hd ht (List.mem_of_getElem? hl) hoff
    obtain rfl : l = l' := by
      have := (nb.slotOf_eq_some_iff _ _).mpr hl
      rw [(nb.slotOf_eq_some_iff _ _).mpr hl'] at this
      exact (Option.some.inj this).symm
    obtain rfl : v = v' := Option.some.inj (hv'.symm.trans hrow')
    refine ⟨y, (hlaid.stands_seen hrow mem_of_mem_seen hat).mpr ?_, hyt⟩
    exact (standsFor_pickOf hlaid hat).mpr hy
  | none =>
    rw [hv] at hat
    have hmem := (mem_states_iff hany).mpr (h.unseen i _ t hd ht ((seen_eq_none_iff hlen).mp hv))
    obtain ⟨y, hy, hyt⟩ := exists_own_free hmem
    refine ⟨y, (hlaid.stands_unseen hat).mpr ?_, hyt⟩
    rwa [pickOf, hat, List.getD_eq_getElem?_getD, ht]

/-- What is foreseen is taken by the layout, if its last slot takes the index `k` under which the
value comes to the next state. -/
lemma exists_tuple_of_foreseen (h : Foreseen nb row n aux.value target choice tuple)
    (hrow : row.Proper) (hlen : nb.sites.length ≤ row.length)
    (hlaid : f.Laid any span (nb.sites.map (seen nb row target)))
    (hany : any.states = (List.range n.toNat).map Int.ofNat)
    (hc : revalue nb aux target = .ok c) : ∃ pick, Cell.Tuple (f.cells ++ [c]) pick tuple := by
  obtain ⟨result, hresult⟩ : ∃ t, tuple[nb.sites.length]? = some t :=
    ⟨_, List.getElem?_eq_getElem (by rw [h.size]; omega)⟩
  obtain ⟨x, ⟨k, hx⟩, hxt⟩ := h.result result hresult
  refine ⟨pickOf nb row target choice tuple any.states k, h.size.trans (length_reframed hlaid).symm,
    fun i t ht => ?_⟩
  have hi : i < nb.sites.length + 1 := h.size ▸ (List.getElem?_eq_some_iff.mp ht).1
  rcases Nat.lt_succ_iff_lt_or_eq.mp hi with hi | rfl
  · exact exists_stands_of_foreseen h hrow hlen hlaid hany hi ht
  · obtain rfl : result = t := Option.some.inj (hresult.symm.trans ht)
    refine ⟨x, (stands_revalue hrow hlen hlaid hc).mpr ?_, hxt⟩
    have hk : pickOf nb row target choice tuple any.states k nb.sites.length = k := by
      rw [pickOf, List.getElem?_eq_none (by rw [List.length_map])]
    rw [hk]
    obtain ⟨hr, -⟩ | ⟨ref, slot, hr, -, -, hseen⟩ := revalue_ok hc
    · rwa [hr] at hx ⊢
    · rw [hr] at hx ⊢
      obtain ⟨v, y, hv, hy, hx⟩ := hx
      exact ⟨v, y, hv, (standsFor_pickOf hlaid (hseen row v hv)).mpr hy, hx⟩

/-- **One cell.** The layout for the cell at `target` takes exactly the tuples that the acting cell
foresees. -/
lemma exists_tuple_iff_foreseen (hrow : row.Proper) (hlen : nb.sites.length ≤ row.length)
    (hlaid : f.Laid any span (nb.sites.map (seen nb row target)))
    (hany : any.states = (List.range n.toNat).map Int.ofNat)
    (hc : revalue nb aux target = .ok c) :
    (∃ pick, Cell.Tuple (f.cells ++ [c]) pick tuple) ↔
      ∃ choice, Foreseen nb row n aux.value target choice tuple := by
  constructor
  · rintro ⟨pick, h⟩
    exact ⟨_, foreseen_of_tuple hrow hlen hlaid hany hc h⟩
  · rintro ⟨choice, h⟩
    exact exists_tuple_of_foreseen h hrow hlen hlaid hany hc

end Reframed

/-! ### Built rules -/

lemma mem_dedup_fold {P : Direction → Prop} {found dirs : List Direction}
    (hfound : ∀ d ∈ found, P d) (hdirs : ∀ d ∈ dirs, P d) :
    ∀ d ∈ dirs.foldl (fun out d => if out.contains d then out else out ++ [d]) found, P d := by
  induction dirs generalizing found with
  | nil => exact hfound
  | cons d dirs ih =>
    refine ih ?_ fun d' hd' => hdirs d' (List.mem_cons_of_mem _ hd')
    dsimp only
    split
    · exact hfound
    · intro d' hd'
      rcases List.mem_append.mp hd' with hd' | hd'
      · exact hfound d' hd'
      · rw [List.mem_singleton.mp hd']
        exact hdirs d List.mem_cons_self

lemma targets_mem_sites {group : Option Symmetry} {labels : List String}
    {found dirs : List Direction} (hfound : ∀ d ∈ found, d ∈ nb.sites)
    (h : targets nb group span labels found = .ok dirs) : ∀ d ∈ dirs, d ∈ nb.sites := by
  induction labels generalizing found with
  | nil =>
    cases h
    exact hfound
  | cons label labels ih =>
    obtain ⟨position, -, h⟩ := outcome_bind_ok.mp h
    refine ih (mem_dedup_fold hfound fun d hd => ?_) h
    obtain ⟨i, -, rfl⟩ := List.mem_map.mp hd
    rw [List.getD_eq_getElem?_getD]
    cases hi : nb.directions[i]? with
    | none => exact List.mem_cons_self
    | some d => exact List.mem_cons_of_mem _ (List.mem_of_getElem? hi)

lemma napkin_length {terms : List Term} {given cells : List Cell}
    (h : runFrom (napkin nb span terms given) s = (.ok cells, s')) : cells.length = nb.size := by
  induction terms generalizing given s with
  | nil =>
    rw [napkin] at h
    split at h
    · cases h
    · next hlen =>
      cases h
      simpa using hlen
  | cons term terms ih =>
    rw [napkin] at h
    obtain ⟨last, s₁, -, h⟩ := runFrom_bind_ok.mp h
    split at h
    · cases h
    obtain ⟨c, s₂, -, h⟩ := runFrom_bind_ok.mp h
    exact ih h

/-- What holds of the slots and the auxiliaries of every rule that was laid out. -/
structure WellLaid (rule : Rule) : Prop where
  length : rule.cells.length = rule.neighborhood.sites.length + 1
  cells : ∀ c ∈ rule.cells, c.Proper
  values : ∀ aux ∈ rule.auxiliaries, aux.value.Proper
  refs : ∀ aux ∈ rule.auxiliaries, ∀ ref, aux.value.ref? = some ref →
    ref.toNat < rule.neighborhood.sites.length
  targets : ∀ aux ∈ rule.auxiliaries, ∀ target ∈ aux.targets, target ∈ rule.neighborhood.sites

lemma ordinal?_lt {d : Direction} {k : ℕ} (h : nb.ordinal? d = some k) : k < nb.sites.length := by
  have hd : d ≠ .c := by
    rintro rfl
    cases nb <;> cases h
  have hsite := (nb.slotOf_eq_some_iff d k).mp (by rw [slotOf, if_neg hd, h])
  exact (List.getElem?_eq_some_iff.mp hsite).1

lemma ordinal_lt {label : String} {d : Direction} {k : ℕ}
    (h : (match nb.ordinal? d with
      | some i => return i
      | none => refuse span (.foreignReference label nb.name) : Outcome ℕ) = .ok k) :
    k < nb.sites.length := by
  split at h
  · next i hi =>
    cases h
    exact ordinal?_lt hi
  · cases h

lemma slot_lt {r : Ref} {k : ℕ} (h : nb.slot r = .ok k) :
    k < nb.sites.length := by
  unfold Neighborhood.slot at h
  extract_lets label at h
  split at h
  · cases h
    exact Nat.succ_pos _
  · split at h
    · obtain ⟨label, -, h⟩ := outcome_bind_ok.mp h
      obtain ⟨d, -, h⟩ := outcome_bind_ok.mp h
      exact ordinal_lt h
    · obtain ⟨label, -, h⟩ := outcome_bind_ok.mp h
      obtain ⟨d, -, h⟩ := outcome_bind_ok.mp h
      exact ordinal_lt h

lemma cell_ref {result : Bool} {e : Expr} {c : Cell}
    (h : runFrom (cell nb result e) s = (.ok c, s')) {ref : ℤ} (hr : c.ref? = some ref) :
    ref.toNat < nb.sites.length := by
  obtain ⟨t, rfl⟩ | ⟨v, -, rfl⟩ | ⟨r, k, hk, hr'⟩ := cell_written h
  · cases hr
  · cases hr
  · obtain rfl := Option.some.inj (hr.symm.trans hr')
    exact slot_lt hk

lemma auxiliary_ok {symmetry : Symmetry} {a : AuxiliaryExpr} {w w' : Workspace} {aux : Auxiliary}
    (h : runFrom (auxiliary nb symmetry a) w = (.ok aux, w')) :
    aux.value.Proper ∧ (∀ ref, aux.value.ref? = some ref → ref.toNat < nb.sites.length) ∧
      ∀ target ∈ aux.targets, target ∈ nb.sites := by
  obtain ⟨geometric, w₁, -, h⟩ := runFrom_bind_ok.mp h
  split at h
  · obtain ⟨value, w₂, hv, h⟩ := runFrom_bind_ok.mp h
    obtain ⟨group, w₃, -, h⟩ := runFrom_bind_ok.mp h
    obtain ⟨dirs, w₄, hd, h⟩ := runFrom_bind_ok.mp h
    cases h
    rw [runFrom_outcome, Prod.mk.injEq] at hd
    exact ⟨cell_proper (onScope_ok hv), fun ref => cell_ref (onScope_ok hv),
      targets_mem_sites (by simp) hd.1⟩
  · cases h

lemma build_wellLaid {nb : Option Neighborhood} {symmetry : Option Symmetry} {t : Transition}
    {w w' : Workspace} {rule : Rule} (h : runFrom (build nb symmetry t) w = (.ok rule, w')) :
    rule.WellLaid := by
  obtain ⟨nb, symmetry, w₁, -, h, -⟩ := build_ok h
  have hproper := layOut_proper h
  obtain ⟨initial, w₂, -, h⟩ := runFrom_bind_ok.mp h
  obtain ⟨neighbors, w₃, hn, h⟩ := runFrom_bind_ok.mp h
  obtain ⟨result, w₄, -, h⟩ := runFrom_bind_ok.mp h
  obtain ⟨auxiliaries, w₅, haux, h⟩ := runFrom_bind_ok.mp h
  cases h
  have hlen := napkin_length (onScope_ok hn)
  have hall := runFrom_mapM_forall (fun a _ w aux w' => auxiliary_ok) haux
  refine ⟨?_, hproper, fun aux haux => (hall aux haux).1, fun aux haux => (hall aux haux).2.1,
    fun aux haux => (hall aux haux).2.2⟩
  simp [Neighborhood.sites, hlen, Neighborhood.size]

lemma Frame.Laid.proper (h : f.Laid any span entries) (hrow : row.Proper)
    (hmem : ∀ v, some v ∈ entries → v ∈ row) : ∀ c ∈ f.cells, c.Proper := by
  intro c hc
  obtain ⟨i, hi⟩ := List.mem_iff_getElem?.mp hc
  obtain ⟨entry, hentry⟩ : ∃ entry, entries[i]? = some entry :=
    ⟨_, List.getElem?_eq_getElem (h.length ▸ (List.getElem?_eq_some_iff.mp hi).1)⟩
  cases entry with
  | none =>
    obtain rfl := Option.some.inj ((h.unseen i hentry).symm.trans hi)
    trivial
  | some v =>
    cases v with
    | state t d o =>
      obtain rfl := Option.some.inj ((h.state i t d o hentry).symm.trans hi)
      exact hrow.drawn t d o (hmem _ (List.mem_of_getElem? hentry))
    | free v o =>
      obtain ⟨j, hj, hbound⟩ := h.free i v o hentry
      obtain ⟨w, -, hw⟩ := h.owner o j hj
      by_cases hij : i = j
      · obtain rfl := Option.some.inj (hw.symm.trans (hij ▸ hi))
        trivial
      · obtain rfl := Option.some.inj ((hbound hij).symm.trans hi)
        trivial

lemma revalue_proper {aux : Auxiliary} {c : Cell} (h : revalue nb aux target = .ok c)
    (hv : aux.value.Proper) : c.Proper := by
  obtain ⟨-, rfl⟩ | ⟨ref, slot, hr, rfl, -, -⟩ := revalue_ok h
  · exact hv
  · cases hc : aux.value <;> simp_all [Cell.withRef, Cell.Proper, Cell.ref?]

lemma lookup_any {n : ℤ} {names : NameSource} {s₀ : Scope} (hcreate : Scope.create n names = .ok s₀)
    (hscope : s₀.Extends s) {v : Variable} (hv : s.lookup "any" = some v) :
    v.states = (List.range n.toNat).map Int.ofNat := by
  unfold Scope.create at hcreate
  split at hcreate
  · cases hcreate
  · cases hcreate
    have hfound : s.lookup "any" =
        some { name := "any", states := (List.range n.toNat).map Int.ofNat } :=
      hscope.find? (by simp [Scope.declare])
    rw [hfound, Option.some.injEq] at hv
    rw [← hv]

lemma Frame.Laid.proper_cells {aux : Auxiliary} {c : Cell}
    (h : f.Laid any span (nb.sites.map (seen nb row target))) (hrow : row.Proper)
    (hc : revalue nb aux target = .ok c) (hv : aux.value.Proper) :
    ∀ c' ∈ f.cells ++ [c], c'.Proper := by
  intro c' hc'
  rcases List.mem_append.mp hc' with hc' | hc'
  · exact h.proper hrow mem_of_mem_seen c' hc'
  · rw [List.mem_singleton.mp hc']
    exact revalue_proper hc hv

/-- The rows for one cell that changes, in a scope that has grown from one of `n` states. -/
lemma reframed_ok {rule : Rule} {aux : Auxiliary} {s₀ : Scope} {n : ℤ} {names : NameSource}
    {rows : List Row} (hlaid : rule.WellLaid) (hrow : row.Proper)
    (hlen : row.length = rule.cells.length) (haux : aux ∈ rule.auxiliaries)
    (htarget : target ∈ aux.targets) (hcreate : Scope.create n names = .ok s₀)
    (hscope : s₀.Extends s)
    (h : runFrom (do Cell.expand (← rule.reframe row aux target) aux.span) s = (.ok rows, s')) :
    (∀ tuple, (∃ r ∈ rows, r.Matches tuple) ↔
      ∃ choice, Foreseen rule.neighborhood row n aux.value target choice tuple) ∧
      s₀.Extends s' := by
  obtain ⟨cells, s₁, hcells, hrows⟩ := runFrom_bind_ok.mp h
  obtain ⟨any, c, f, hany, hc, hf, rfl, rfl⟩ :=
    reframe_ok (hlaid.targets aux haux target htarget) hcells
  have hproper := hf.proper_cells hrow hc (hlaid.values aux haux)
  refine ⟨fun tuple => ?_, hscope.trans ((Cell.expand_steps _ _).run hrows)⟩
  rw [← Cell.expand_ok hproper hrows]
  exact exists_tuple_iff_foreseen hrow (by rw [hlen, hlaid.length]; omega) hf
    (lookup_any hcreate hscope hany) hc

lemma auxiliaryRows_ok {rule : Rule} {s₀ : Scope} {n : ℤ} {names : NameSource} {out : List Row}
    (hlaid : rule.WellLaid) (hrow : row.Proper) (hlen : row.length = rule.cells.length)
    (hcreate : Scope.create n names = .ok s₀) (hscope : s₀.Extends s)
    (h : runFrom (rule.auxiliaryRows row) s = (.ok out, s')) :
    ∃ parts : List (List (List Row)), out = parts.flatten.flatten ∧
      List.Forall₂ (fun aux => List.Forall₂ (fun target rows => ∀ tuple,
          (∃ r ∈ rows, r.Matches tuple) ↔
            ∃ choice, Foreseen rule.neighborhood row n aux.value target choice tuple) aux.targets)
        rule.auxiliaries parts := by
  obtain ⟨parts, s₁, hparts, h⟩ := runFrom_bind_ok.mp h
  cases h
  -- the scope only grows on the way from one target to the next, so `any` stays what it was
  refine ⟨parts, rfl, (runFrom_mapM_keeping (I := s₀.Extends) ?_ hscope hparts).1⟩
  intro aux haux s part s' hs h
  refine runFrom_mapM_keeping (I := s₀.Extends) ?_ hs h
  intro target htarget s rows s' hs h
  exact reframed_ok hlaid hrow hlen haux htarget hcreate hs h

/-- **Auxiliary rows are exact.** For every auxiliary and every cell it changes there are rows,
which together make up the result, and these stand for the tuples that the acting cell foresees
there, for these and no others. -/
theorem auxiliaryRows_matches_iff_foreseen {nb : Option Neighborhood} {symmetry : Option Symmetry}
    {t : Transition} {w w' : Workspace} {rule : Rule} {s s' s₀ s₁ s₂ : Scope} {n : ℤ}
    {names : NameSource} {rows out : List Row} {row : Row}
    (hbuild : runFrom (build nb symmetry t) w = (.ok rule, w'))
    (hexpand : runFrom (Cell.expand rule.cells rule.span) s = (.ok rows, s')) (hrow : row ∈ rows)
    (hcreate : Scope.create n names = .ok s₀) (hscope : s₀.Extends s₁)
    (haux : runFrom (rule.auxiliaryRows row) s₁ = (.ok out, s₂)) :
    ∃ parts : List (List (List Row)), out = parts.flatten.flatten ∧
      List.Forall₂ (fun aux => List.Forall₂ (fun target rows => ∀ tuple,
          (∃ r ∈ rows, r.Matches tuple) ↔
            ∃ choice, Foreseen rule.neighborhood row n aux.value target choice tuple) aux.targets)
        rule.auxiliaries parts := by
  have hlaid := build_wellLaid hbuild
  obtain ⟨hproper, hlen⟩ := Cell.expand_proper hlaid.cells hexpand row hrow
  exact auxiliaryRows_ok hlaid hproper hlen hcreate hscope haux

/-! A transition that changes its eastern neighbor, of which it does not see the far side. -/

def ternaryStart : Scope where
  stateCount := 3
  vars := #[ternary, { name := "live", states := [1, 2] }]
  names := ((NameSource.ofSeed 0).reserve "any").reserve "live"

def pushing : Transition where
  initial := .name "any" .nowhere
  napkin := [{ value := .name "live" .nowhere }, { value := .ref ⟨"C", .nowhere⟩ }]
  result := .ref ⟨"W", .nowhere⟩
  auxiliaries := [{
    targets := ["E"]
    group := none
    value := .map ⟨"C", .nowhere⟩
      (.set [.int "2" .nowhere, .int "1" .nowhere] true .nowhere) .nowhere
    span := .nowhere }]
  span := .nowhere

def pushingRule : Rule where
  neighborhood := .oneDimensional
  cells := [.free ternary, .free { name := "live", states := [1, 2] }, .binding 0 .nowhere,
    .binding 1 .nowhere]
  symmetry := asymmetric
  auxiliaries := [{ targets := [.e], value := .mapping 0 [2, 1] true .nowhere, span := .nowhere }]
  span := .nowhere

def pushingRow : Row :=
  [.free ternary 0, .free { name := "live", states := [1, 2] } 1, .free ternary 0,
    .free { name := "live", states := [1, 2] } 1]

def pushedRow (k next index : ℤ) : Row :=
  [.state k (some ⟨ternary, k⟩) 0, .state k (some ⟨ternary, k⟩) 1, .free ternary 2,
    .state next (some ⟨{ name := "", states := [2, 1], anonymous := true }, index⟩) 3]

theorem auxiliaryRows_matches_iff_foreseen_pushing :
    (runFrom (build (some .oneDimensional) (some asymmetric) pushing)
        { scope := ternaryStart }).1 = .ok pushingRule ∧
      runFrom (Cell.expand pushingRule.cells pushingRule.span) ternaryStart =
        (.ok [pushingRow], ternaryStart) ∧
      Scope.create 3 (.ofSeed 0) = .ok ternaryStart ∧
      (runFrom (pushingRule.auxiliaryRows pushingRow) ternaryStart).1 =
        .ok [pushedRow 0 2 0, pushedRow 1 1 1, pushedRow 2 1 1] ∧
      ∃ parts : List (List (List Row)),
        [pushedRow 0 2 0, pushedRow 1 1 1, pushedRow 2 1 1] = parts.flatten.flatten ∧
        List.Forall₂ (fun aux => List.Forall₂ (fun target rows => ∀ tuple,
            (∃ r ∈ rows, r.Matches tuple) ↔
              ∃ choice, Foreseen .oneDimensional pushingRow 3 aux.value target choice tuple)
            aux.targets)
          pushingRule.auxiliaries parts := by
  have hbuild : (runFrom (build (some .oneDimensional) (some asymmetric) pushing)
      { scope := ternaryStart }).1 = .ok pushingRule := by cbv
  have hexpand : runFrom (Cell.expand pushingRule.cells pushingRule.span) ternaryStart =
      (.ok [pushingRow], ternaryStart) := by cbv
  have haux : (runFrom (pushingRule.auxiliaryRows pushingRow) ternaryStart).1 =
      .ok [pushedRow 0 2 0, pushedRow 1 1 1, pushedRow 2 1 1] := by cbv
  exact ⟨hbuild, hexpand, rfl, haux, auxiliaryRows_matches_iff_foreseen
    (Prod.ext hbuild rfl) hexpand
    List.mem_cons_self rfl (.refl _) (Prod.ext haux rfl)⟩

end Rule

end RuleTable
