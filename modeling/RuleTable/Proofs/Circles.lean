import RuleTable.Proofs.Layouts
import RuleTable.Proofs.Ranges

/-!
References that go round.

A slot is known only after the slot it refers to, so from a known slot references come to an end. A
split writes a state into such a slot and starts again; no circle is broken by it, and since a
variable has at least one state, there is always a layout to start again with. In turn the slots
that wait for each other all refer to the one in work, so meeting one of them again shows a circle.
-/

namespace RuleTable

/-- The stop says that the references of slot `i` lead back to it. -/
def Stop.RefersBack (i : ℕ) : Stop → Prop
  | .refused f => f.cause = .circularReference i
  | .crash => False

lemma Failure.cause_of_diagnostic? {f : Failure} {d : Diagnostic} (h : f.diagnostic? = some d) :
    f.cause = d.cause := by
  induction f with
  | bare cause => cases h
  | diagnosed d' =>
    cases h
    rfl
  | within context inner ih => exact ih h

/-- Giving a failure a place makes no other cause of it. -/
lemma Failure.cause_of_locate {f : Failure} {kind : Kind} {span : Span} {i : ℕ}
    (h : (f.locate kind span).cause = .circularReference i) : f.cause = .circularReference i := by
  unfold locate at h
  split at h
  · next d hd =>
    split at h
    · rw [cause_of_diagnostic? hd]
      exact h
    · exact h
  · split at h
    · exact h
    · cases h

namespace Cell

variable {cells : List Cell} {values : Slots} {s s' : Scope} {span : Span} {i j k n : ℕ} {c : Cell}
  {e : Stop} {v : Value}

def RefersTo (cells : List Cell) (i j : ℕ) : Prop :=
  ∃ c, cells[i]? = some c ∧ c.ref? = some (j : ℤ)

/-- Following the references from slot `i` comes to an end. -/
def Founded (cells : List Cell) : ℕ → Prop := Acc fun j i => RefersTo cells i j

lemma Founded.not_circular (h : Founded cells i) : ¬ Relation.TransGen (RefersTo cells) i i := by
  induction h with
  | intro i _ ih =>
    intro hcircle
    obtain ⟨j, hij, hji⟩ := Relation.TransGen.head'_iff.mp hcircle
    exact ih j hij (Relation.TransGen.tail' hji hij)

/-- Writing a state takes references away and adds none. -/
lemma RefersTo.of_set {t : ℤ} {drawn : Option Draw}
    (h : RefersTo (cells.set k (.literal t drawn)) i j) : RefersTo cells i j := by
  obtain ⟨c, hc, hr⟩ := h
  rw [List.getElem?_set] at hc
  split at hc
  · split at hc
    · cases hc
      cases hr
    · cases hc
  · exact ⟨c, hc, hr⟩

/-- Writing a state into a founded slot breaks no circle. -/
lemma Founded.of_set {t : ℤ} {drawn : Option Draw} (hk : Founded cells k)
    (h : Founded (cells.set k (.literal t drawn)) i) : Founded cells i := by
  induction h with
  | intro i _ ih =>
    rcases eq_or_ne i k with rfl | hne
    · exact hk
    · refine .intro i fun j hij => ih j ?_
      obtain ⟨c, hc, hr⟩ := hij
      exact ⟨c, (List.getElem?_set_ne hne.symm).trans hc, hr⟩

/-! ### Resolved slots -/

/-- What a known value says of its slot: following references from it comes to an end, and a
variable has states and belongs to such a slot. -/
structure Rooted (cells : List Cell) (i : ℕ) (v : Value) : Prop where
  slot : Founded cells i
  source : ∀ w origin, v = .free w origin → w.states ≠ [] ∧ ∃ k : ℕ, origin = k ∧ Founded cells k

lemma resolve_known {ref : ℤ} {r : Resolution} (hr : c.ref? = some ref)
    (h : runFrom (c.resolve (valueAt values) i) s = (.ok r, s')) : (valueAt values ref).isSome := by
  cases hv : valueAt values ref with
  | some v => rfl
  | none => cases c <;> cases hr <;> simp [resolve, hv] at h

lemma resolve_rooted (hfull : ∀ v, .free v ∈ cells → v.states ≠ [])
    (hs : ∀ (i : ℕ) v, valueAt values i = some v → Rooted cells i v) (hc : cells[i]? = some c)
    (h : runFrom (c.resolve (valueAt values) i) s = (.ok (.value v), s')) : Rooted cells i v := by
  have hslot : Founded cells i := by
    refine .intro i fun j hij => ?_
    obtain ⟨c', hc', hr⟩ := hij
    obtain rfl := Option.some.inj (hc.symm.trans hc')
    obtain ⟨u, hu⟩ := Option.isSome_iff_exists.mp (resolve_known hr h)
    exact (hs j u hu).slot
  refine ⟨hslot, fun w origin he => ?_⟩
  subst he
  cases resolvesTo_of_ok h with
  | free _ => exact ⟨hfull w (List.mem_of_getElem? hc), i, rfl, hslot⟩
  | boundFree hj => exact (hs _ _ hj).source w origin rfl
  | removed _ hr =>
    obtain ⟨hne, ⟨_, -, hval⟩ | ⟨-, w, hw, hval⟩⟩ := remove_ok hr <;> cases hval
    exact ⟨hw.states_eq ▸ hne, i, rfl, hslot⟩

lemma invariant_rooted (hfull : ∀ v, .free v ∈ cells → v.states ≠ []) :
    Invariant cells (fun _ values => ∀ (i : ℕ) v, valueAt values i = some v → Rooted cells i v)
      (fun _ w origin => w.states ≠ [] ∧ ∃ k : ℕ, origin = k ∧ Founded cells k) where
  value := by
    intro s s' values i c v hs hsize hc hn hrun _ j u hu
    have hlt : i < values.size := hsize ▸ (List.getElem?_eq_some_iff.mp hc).1
    rw [valueAt_set_nat hlt] at hu
    split at hu
    · next hji =>
      cases hu
      exact hji ▸ resolve_rooted hfull hs hc hrun
    · exact hs j u hu
  split := by
    intro s s' values i c slot origin w hs _ _ _ hslot
    obtain ⟨j, rfl⟩ := valueAt_some hslot
    exact (hs j _ hslot).source w origin rfl

/-- **Rows exclude circles.** -/
lemma branch_founded {splits : ℕ} {rows : List Row} (hfull : ∀ v, .free v ∈ cells → v.states ≠ [])
    (h : runFrom (branch span splits cells) s = (.ok rows, s')) (i : ℕ) : Founded cells i := by
  induction splits generalizing cells s rows s' with
  | zero => cases h
  | succ splits ih =>
    rw [branch] at h
    obtain ⟨p, s₁, hp, h⟩ := runFrom_bind_ok.mp h
    obtain ⟨hmeets, hall⟩ := (invariant_rooted hfull).settleAll
      (by simp [valueAt_replicate]) Array.size_replicate hp
    cases p with
    | settled values =>
      obtain ⟨-, hknown⟩ := hall values rfl
      refine .intro i fun j hij => ?_
      obtain ⟨c, hc, -⟩ := id hij
      have hi : i < cells.length := (List.getElem?_eq_some_iff.mp hc).1
      obtain ⟨v, hv⟩ := Option.isSome_iff_exists.mp (hknown i (List.mem_range.mpr hi))
      exact (hmeets i v hv).slot.inv hij
    | split w origin =>
      obtain ⟨hne, k, rfl, hk⟩ := hmeets
      obtain ⟨parts, s₂, hparts, -⟩ := runFrom_bind_ok.mp h
      -- the first state of the variable has its rows, too
      obtain ⟨t, rest, hstates⟩ := List.exists_cons_of_ne_nil hne
      rw [hstates, List.zipIdx_cons] at hparts
      obtain ⟨rows', s₃, -, hrun, -, -⟩ := runFrom_mapM_cons.mp hparts
      refine hk.of_set (ih (fun v hv => ?_) hrun)
      rcases List.mem_or_eq_of_mem_set hv with hv | hv
      · exact hfull v hv
      · cases hv

/-! ### The refusal -/

lemma lookUp_not_refersBack {images : StateList} {ellipsis : Bool}
    {t slot : ℤ} {drawn : Option Draw}
    (h : lookUp images ellipsis t drawn slot span = .error e) : ¬ e.RefersBack k := by
  unfold lookUp at h
  rcases sourceOf t drawn with ⟨states, index⟩
  dsimp only at h
  split at h
  · cases h
    rintro ⟨⟩
  split at h
  · cases h
    rintro ⟨⟩
  unfold Variable.draw at h
  dsimp only at h
  split at h <;> cases h
  exact id

lemma remove_not_refersBack {operand : StateList} {slot : ℤ}
    (h : runFrom (remove operand v slot span) s = (.error e, s')) : ¬ e.RefersBack k := by
  unfold remove at h
  dsimp only at h
  split at h
  · cases h
    rintro ⟨⟩
  split at h
  · cases h
  obtain h | ⟨w, s₁, -, h⟩ := runFrom_bind_error.mp h
  · rw [Scope.anonymous_error h]
    exact id
  · cases h

/-- No cell is refused because of its own references. -/
lemma resolve_not_refersBack (h : runFrom (c.resolve (valueAt values) i) s = (.error e, s')) :
    ¬ e.RefersBack k := by
  cases c with
  | literal t drawn => cases h
  | free w =>
    rw [resolve] at h
    split at h <;> cases h
  | binding ref span =>
    rw [resolve] at h
    split at h <;> cases h
    exact id
  | mapping ref images ellipsis span =>
    rw [resolve] at h
    split at h
    · cases h
      exact id
    · cases h
    · rw [runFrom_outcome, Prod.mk.injEq] at h
      exact lookUp_not_refersBack h.1
  | operation ref op count operand span =>
    rw [resolve] at h
    split at h
    · cases h
      exact id
    split at h
    · exact remove_not_refersBack h
    · split at h
      · cases h
      · rw [runFrom_outcome, Prod.mk.injEq] at h
        exact lookUp_not_refersBack h.1
    · cases h
      rintro ⟨⟩
  | absent =>
    cases h
    rintro ⟨⟩

lemma settleCell_not_refersBack {last : ℕ}
    (h : runFrom (settleCell last span values i c) s = (.error e, s')) : ¬ e.RefersBack k := by
  obtain h | ⟨r, s₁, -, h⟩ := runFrom_bind_error.mp h
  · rw [runFrom_locating] at h
    split at h
    · cases h
    · next f s₁ hf =>
      cases h
      exact fun hback => resolve_not_refersBack hf (k := k) (Failure.cause_of_locate hback)
    · cases h
      exact id
  cases r with
  | split slot =>
    rw [enter] at h
    split at h <;> cases h
    exact id
  | value v =>
    cases v with
    | state t drawn origin => cases h
    | free w origin =>
      rw [enter] at h
      dsimp only at h
      split at h <;> cases h
      rintro ⟨⟩

/-- **One slot.** All slots that wait refer to it, perhaps through others, so one that is met again
refers to itself. -/
lemma settle_circular {depth : ℕ} {path : List ℕ}
    (hpath : ∀ j ∈ path, Relation.TransGen (RefersTo cells) j i)
    (h : runFrom (settle cells.toArray span depth path values i) s = (.error e, s'))
    (hback : e.RefersBack k) : Relation.TransGen (RefersTo cells) k k := by
  induction depth generalizing path i s s' with
  | zero =>
    cases h
    cases hback
  | succ depth ih =>
    rw [settle] at h
    by_cases hknown : (valueAt values i).isSome
    · rw [if_pos hknown] at h
      cases h
    rw [if_neg hknown] at h
    by_cases hmet : path.contains i
    · rw [if_pos hmet] at h
      cases h
      cases hback
      exact hpath _ (by simpa using hmet)
    rw [if_neg hmet] at h
    cases hc : cells[i]? with
    | none =>
      simp only [List.getElem?_toArray, hc] at h
      cases h
      cases hback
    | some c =>
      simp only [List.getElem?_toArray, hc] at h
      cases hr : c.ref? with
      | none =>
        simp only [hr] at h
        exact absurd hback (settleCell_not_refersBack h)
      | some ref =>
        simp only [hr] at h
        split at h
        · cases h
          cases hback
        next hin =>
        obtain ⟨j, rfl⟩ := Int.eq_ofNat_of_zero_le (a := ref) (by omega)
        have hij : RefersTo cells i j := ⟨c, hc, hr⟩
        obtain h | ⟨q, s₁, -, h⟩ := runFrom_bind_error.mp h
        · refine ih (fun l hl => ?_) h
          rcases List.mem_cons.mp hl with rfl | hl
          · exact .single hij
          · exact (hpath l hl).tail hij
        · cases q with
          | split w origin => cases h
          | settled values₁ => exact absurd hback (settleCell_not_refersBack h)

lemma settleAll_circular {slots : List ℕ}
    (h : runFrom (settleAll cells.toArray span slots values) s = (.error e, s'))
    (hback : e.RefersBack k) : Relation.TransGen (RefersTo cells) k k := by
  induction slots generalizing values s with
  | nil => cases h
  | cons i slots ih =>
    rw [settleAll] at h
    obtain h | ⟨q, s₁, -, h⟩ := runFrom_bind_error.mp h
    · exact settle_circular (by simp) h hback
    · cases q with
      | split w origin => cases h
      | settled values₁ => exact ih h

/-- **The refusal** names a slot that refers to itself, in the layout as it was before any split. -/
lemma branch_circular {splits : ℕ} (h : runFrom (branch span splits cells) s = (.error e, s'))
    (hback : e.RefersBack k) : Relation.TransGen (RefersTo cells) k k := by
  induction splits generalizing cells s s' with
  | zero =>
    cases h
    cases hback
  | succ splits ih =>
    rw [branch] at h
    obtain h | ⟨p, s₁, -, h⟩ := runFrom_bind_error.mp h
    · exact settleAll_circular h hback
    cases p with
    | settled values => cases h
    | split w origin =>
      obtain h | ⟨parts, s₂, -, h⟩ := runFrom_bind_error.mp h
      · obtain ⟨⟨t, index⟩, -, s₂, hrun⟩ := runFrom_mapM_error h
        exact (ih hrun).lift id fun _ _ => RefersTo.of_set
      · cases h

/-- **References that go round.** In a scope of two states or more, a layout in which some slot
refers to itself, perhaps through others, stops without rows. If its drawn states have their places,
it is refused, or else names have run out before. A layout that is refused because a slot refers
back to itself is one in which this slot does. -/
theorem expand_detects_circles (hs : s.Reached n) (hn : 2 ≤ n)
    (hcells : ∀ v, .free v ∈ cells → v ∈ s.vars) (span : Span) :
    ((∃ i, Relation.TransGen (RefersTo cells) i i) →
      ∃ e, (runFrom (expand cells span) s).1 = .error e ∧
        ((∀ c ∈ cells, c.Proper) → (∃ f, e = .refused f) ∨
          (runFrom (expand cells span) s).2.names.fresh? = none)) ∧
    ∀ f i, (runFrom (expand cells span) s).1 = .error (.refused f) →
      f.cause = .circularReference i → Relation.TransGen (RefersTo cells) i i := by
  rcases hrun : runFrom (expand cells span) s with ⟨r, s'⟩
  refine ⟨?_, ?_⟩
  · rintro ⟨i, hcircle⟩
    have hfull : ∀ v, .free v ∈ cells → v.states ≠ [] := fun v hv =>
      ((hs.ranged (by omega)).vars (hcells v hv)).ne_nil hn
    cases r with
    | ok rows =>
      obtain ⟨all, s₁, hall, -⟩ := runFrom_bind_ok.mp hrun
      exact absurd hcircle (branch_founded hfull hall i).not_circular
    | error e =>
      refine ⟨e, rfl, fun hproper => ?_⟩
      have hfair : FairFrom (fun _ => True) (Scope.Spent True) (expand cells span) s :=
        expand_fair trivial hproper fun c _ => by cases c <;> trivial
      cases e with
      | refused f => exact .inl ⟨f, rfl⟩
      | crash => exact .inr (hfair _ _ hrun trivial)
  · rintro f i rfl hcause
    obtain hrun | ⟨rows, s₁, -, hrun⟩ := runFrom_bind_error.mp hrun
    · exact branch_circular hrun hcause
    · cases hrun

/-! The first slot is split for the mapping before the circle of the two slots after it is met. -/

def circling : List Cell :=
  [.free { name := "any", states := [0, 1, 2] }, .mapping 0 [1, 2, 0] false .nowhere,
    .binding 3 .nowhere, .operation 2 .minus 0 [1] .nowhere, .literal 1 none]

theorem expand_detects_circling :
    Scope.threeStates.Reached 3 ∧ (∀ v, .free v ∈ circling → v ∈ Scope.threeStates.vars) ∧
      (runFrom (expand circling .nowhere) Scope.threeStates).1 =
        .error (.refused (.diagnosed ⟨.undefinedReference, .nowhere, .circularReference 2⟩)) ∧
      Relation.TransGen (RefersTo circling) 2 2 := by
  have hcells : ∀ v, .free v ∈ circling → v ∈ Scope.threeStates.vars := by
    simp [circling, Scope.threeStates]
  have hrun : (runFrom (expand circling .nowhere) Scope.threeStates).1 =
      .error (.refused (.diagnosed ⟨.undefinedReference, .nowhere, .circularReference 2⟩)) := by cbv
  exact ⟨Scope.reached_threeStates, hcells, hrun,
    (expand_detects_circles Scope.reached_threeStates (by decide) hcells .nowhere).2 _ 2 hrun rfl⟩

end Cell

end RuleTable
