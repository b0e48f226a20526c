import RuleTable.Proofs.Evaluation
import RuleTable.Proofs.Ground

/-!
Resolving the slots of a layout keeps what they stand for.

Every value found so far says exactly what its slot stands for: a state is all the slot can take,
whatever is chosen, and a variable means that the slot stands for whatever the variable's own slot
stands for. Whatever resolving one cell keeps is kept by resolving a slot after those it refers to,
hence by resolving all slots in turn.
-/

namespace RuleTable

namespace Cell

variable {cells : List Cell} {choice : ℕ → ℕ} {i : ℕ} {x y : Stand} {values values' : Slots}
  {s s' : Scope} {span : Span}

def Holds (cells : List Cell) (i : ℕ) : Value → Prop
  | .state s drawn _ =>
    Proper (.literal s drawn) ∧ ∀ choice x, Stands cells choice i x ↔ x = standOf s drawn
  | .free v origin => ∃ j : ℕ, origin = j ∧ Owns cells j v ∧
    ∀ choice x, Stands cells choice i x ↔ Stands cells choice j x

/-- Every known value says what its slot stands for, a variable is also known at the slot it belongs
to, and none belongs to the last slot. -/
structure Sound (cells : List Cell) (values : Slots) : Prop where
  holds : ∀ (i : ℕ) v, valueAt values i = some v → Holds cells i v
  origin : ∀ (i j : ℕ) v, valueAt values i = some (.free v j) → valueAt values j = some (.free v j)
  result : ∀ v, valueAt values (cells.length - 1 : ℕ) ≠ some (.free v (cells.length - 1 : ℕ))

/-! ### One cell -/

lemma stands_own_iff {c : Cell} (hc : cells[i]? = some c) (hr : c.ref? = none) :
    Stands cells choice i x ↔ c.Own (choice i) x := by
  refine ⟨fun h => ?_, .own hc⟩
  cases h with
  | own h hx => rw [hc, Option.some.injEq] at h; exact h ▸ hx
  | linked h hr' _ _ => rw [hc, Option.some.injEq] at h; rw [← h, hr] at hr'; cases hr'

lemma own_ref {k : ℕ} {c : Cell} {j : Int} (hr : c.ref? = some j) : ¬ c.Own k x := by
  cases c <;> simp_all [ref?, Own]

lemma stands_linked_iff {c : Cell} {j : ℕ} (hc : cells[i]? = some c)
    (hr : c.ref? = some (j : Int)) :
    Stands cells choice i x ↔ ∃ y, Stands cells choice j y ∧ c.Image (choice i) y x := by
  refine ⟨fun h => ?_, fun ⟨y, hy, hx⟩ => .linked hc hr hy hx⟩
  cases h with
  | own h hx =>
    rw [hc, Option.some.injEq] at h
    exact absurd hx (own_ref (h ▸ hr))
  | @linked _ c' _ y l h hr' hy hx =>
    rw [hc, Option.some.injEq] at h
    subst h
    rw [hr, Option.some.injEq, Nat.cast_inj] at hr'
    exact ⟨y, hr' ▸ hy, hx⟩

lemma at_iff {x : Stand} {l : StateList} {k : ℕ} {t : Int} (ht : l[k]? = some t) :
    x.At l k ↔ x = ⟨t, l, k⟩ := by
  have h0 : Stand.At ⟨t, l, k⟩ l k := ⟨rfl, rfl, ht⟩
  exact ⟨fun h => h.unique h0, fun h => h ▸ h0⟩

lemma draw_ok {v : Variable} {index origin : Int} {w : Value} (h : v.draw index origin = .ok w) :
    ∃ t, 0 ≤ index ∧ v.states[index.toNat]? = some t ∧ w = .state t (some ⟨v, index⟩) origin := by
  unfold Variable.draw at h
  split at h
  · next t ht =>
    cases h
    obtain ⟨k, hk, hkt⟩ := Option.bind_eq_some_iff.mp ht
    cases index with
    | ofNat n =>
      obtain rfl : n = k := by simpa [Int.toNat?] using hk
      exact ⟨t, by simp, by simpa using hkt, rfl⟩
    | negSucc n => simp [Int.toNat?] at hk
  · cases h

lemma lookUp_ok {images : StateList} {ellipsis : Bool} {t : Int} {drawn : Option Draw}
    {slot : Int} {r : Resolution} (hp : Proper (.literal t drawn))
    (h : lookUp images ellipsis t drawn slot span = .ok r) :
    ∃ u d, r = .value (.state u d slot) ∧ Proper (.literal u d) ∧
      (standOf u d).At images (min (standOf t drawn).index (images.length - 1)) := by
  unfold lookUp at h
  rcases hs : sourceOf t drawn with ⟨states, index⟩
  have h0 : 0 ≤ index := by have := hp.1; rwa [hs] at this
  have hi : (standOf t drawn).index = index.toNat := by simp [standOf, hs]
  simp only [hs] at h
  by_cases he : images.isEmpty
  · simp [he] at h
  have hlen : 0 < images.length := List.length_pos_iff.mpr (by simpa using he)
  by_cases hl : (decide (images.length < states.length) && !ellipsis) = true
  · simp [he, hl] at h
  rw [if_neg he, if_neg hl] at h
  obtain ⟨w, hw, h⟩ := outcome_bind_ok.mp h
  obtain ⟨u, hpos, hu, rfl⟩ := draw_ok hw
  cases h
  have hk : (if (images.length : Int) ≤ index then (images.length : Int) - 1 else index).toNat =
      min index.toNat (images.length - 1) := by
    split <;> omega
  rw [hi, ← hk]
  exact ⟨u, _, rfl, ⟨hpos, hu⟩, rfl, rfl, hu⟩

lemma lookUp_state {images : StateList} {ellipsis : Bool} {t : ℤ} {drawn : Option Draw} {slot : ℤ}
    {r : Resolution} (h : lookUp images ellipsis t drawn slot span = .ok r) :
    ∃ u ∈ images, ∃ d, d.source.states = images ∧ r = .value (.state u (some d) slot) := by
  unfold lookUp at h
  rcases sourceOf t drawn with ⟨states, index⟩
  dsimp only at h
  split at h
  · cases h
  split at h
  · cases h
  · obtain ⟨w, hw, h⟩ := outcome_bind_ok.mp h
    obtain ⟨u, -, hu, rfl⟩ := draw_ok hw
    cases h
    exact ⟨u, List.mem_of_getElem? hu, _, rfl, rfl⟩

lemma remove_ok {operand : StateList} {v : Value} {slot : Int} {r : Resolution}
    (h : runFrom (remove operand v slot span) s = (.ok r, s')) :
    (sourceStates v).minus operand ≠ [] ∧
      ((∃ t, ((sourceStates v).minus operand).unique? = some t ∧
          r = .value (.state t none slot)) ∨
        (((sourceStates v).minus operand).unique? = none ∧
          ∃ w, s'.Holds ((sourceStates v).minus operand) w ∧ r = .value (.free w slot))) := by
  unfold remove at h
  by_cases hne : ((sourceStates v).minus operand).isEmpty
  · simp [hne, runFrom_bind] at h
  rw [if_neg hne] at h
  have hne' : (sourceStates v).minus operand ≠ [] := by simpa using hne
  split at h
  · next t ht =>
    cases h
    exact ⟨hne', .inl ⟨t, ht, rfl⟩⟩
  · next hu =>
    obtain ⟨w, s₁, hw, h⟩ := runFrom_bind_ok.mp h
    cases h
    exact ⟨hne', .inr ⟨hu, w, Scope.anonymous_ok hw, rfl⟩⟩

lemma valueAt_some {slot : Int} {v : Value} (h : valueAt values slot = some v) :
    ∃ j : ℕ, slot = j := by
  obtain ⟨j, hj, -⟩ := Option.bind_eq_some_iff.mp h
  exact ⟨j, by cases slot <;> simp_all [Int.toNat?]⟩

/-- **What a cell resolves to**, and the scope that this leaves. What a mapping or a shift finds in
a list is said by `lookUp`, and what a difference leaves by `remove`. -/
inductive ResolvesTo (values : Slots) (i : ℕ) (s : Scope) : Cell → Resolution → Scope → Prop
  | literal (t : ℤ) (drawn : Option Draw) :
    ResolvesTo values i s (.literal t drawn) (.value (.state t drawn i)) s
  | single {v : Variable} {t : ℤ} (hu : v.states.unique? = some t) :
    ResolvesTo values i s (.free v) (.value (.state t (some ⟨v, 0⟩) i)) s
  | free {v : Variable} (hu : v.states.unique? = none) :
    ResolvesTo values i s (.free v) (.value (.free v i)) s
  | boundFree {j : ℕ} {place : Span} {v : Variable} {origin : ℤ}
    (hj : valueAt values j = some (.free v origin)) :
    ResolvesTo values i s (.binding j place) (.value (.free v origin)) s
  | boundState {j : ℕ} {place : Span} {t : ℤ} {drawn : Option Draw} {origin : ℤ}
    (hj : valueAt values j = some (.state t drawn origin)) :
    ResolvesTo values i s (.binding j place) (.value (.state t drawn i)) s
  | mapped {j : ℕ} {images : StateList} {ellipsis : Bool} {place : Span} {t u : ℤ}
    {drawn d : Option Draw} {origin : ℤ} (hj : valueAt values j = some (.state t drawn origin))
    (hl : lookUp images ellipsis t drawn i place = .ok (.value (.state u d i))) :
    ResolvesTo values i s (.mapping j images ellipsis place) (.value (.state u d i)) s
  | shifted {j : ℕ} {count : Int64} {operand : StateList} {place : Span} {t u : ℤ}
    {drawn d : Option Draw} {origin : ℤ} (hj : valueAt values j = some (.state t drawn origin))
    (hl : lookUp ((sourceOf t drawn).1.shift count) false t drawn i place =
      .ok (.value (.state u d i))) :
    ResolvesTo values i s (.operation j .shift count operand place) (.value (.state u d i)) s
  | removed {j : ℕ} {count : Int64} {operand : StateList} {place : Span} {v w : Value} {s' : Scope}
    (hj : valueAt values j = some v)
    (hr : runFrom (remove operand v i place) s = (.ok (.value w), s')) :
    ResolvesTo values i s (.operation j .minus count operand place) (.value w) s'
  | splitMapping {j : ℕ} {images : StateList} {ellipsis : Bool} {place : Span} {v : Variable}
    {origin : ℤ} (hj : valueAt values j = some (.free v origin)) :
    ResolvesTo values i s (.mapping j images ellipsis place) (.split j) s
  | splitShift {j : ℕ} {count : Int64} {operand : StateList} {place : Span} {v : Variable}
    {origin : ℤ} (hj : valueAt values j = some (.free v origin)) :
    ResolvesTo values i s (.operation j .shift count operand place) (.split j) s

lemma resolvesTo_of_ok {c : Cell} {r : Resolution}
    (h : runFrom (c.resolve (valueAt values) i) s = (.ok r, s')) :
    ResolvesTo values i s c r s' := by
  cases c with
  | literal t drawn =>
    cases h
    exact .literal t drawn
  | free v =>
    rw [resolve] at h
    split at h
    · next t ht =>
      cases h
      exact .single ht
    · next hu =>
      cases h
      exact .free hu
  | binding ref place =>
    rw [resolve] at h
    split at h
    · cases h
    · next v origin hv =>
      obtain ⟨j, rfl⟩ := valueAt_some hv
      cases h
      exact .boundFree hv
    · next t drawn origin hv =>
      obtain ⟨j, rfl⟩ := valueAt_some hv
      cases h
      exact .boundState hv
  | mapping ref images ellipsis place =>
    rw [resolve] at h
    split at h
    · cases h
    · next v origin hv =>
      obtain ⟨j, rfl⟩ := valueAt_some hv
      cases h
      exact .splitMapping hv
    · next t drawn origin hv =>
      obtain ⟨j, rfl⟩ := valueAt_some hv
      rw [runFrom_outcome, Prod.mk.injEq] at h
      obtain ⟨hl, rfl⟩ := h
      obtain ⟨u, -, d, -, rfl⟩ := lookUp_state hl
      exact .mapped hv hl
  | operation ref op count operand place =>
    rw [resolve] at h
    split at h
    · cases h
    next v hv =>
    obtain ⟨j, rfl⟩ := valueAt_some hv
    split at h
    · obtain ⟨w, rfl⟩ : ∃ w, r = .value w := by
        obtain ⟨-, ⟨t, -, rfl⟩ | ⟨-, w, -, rfl⟩⟩ := remove_ok h
        · exact ⟨_, rfl⟩
        · exact ⟨_, rfl⟩
      exact .removed hv h
    · split at h
      · cases h
        exact .splitShift hv
      · rw [runFrom_outcome, Prod.mk.injEq] at h
        obtain ⟨hl, rfl⟩ := h
        obtain ⟨u, -, d, -, rfl⟩ := lookUp_state hl
        exact .shifted hv hl
    · simp at h
  | absent => simp [resolve] at h

/-- Whatever slot `j` stands for is drawn from the list of its value. -/
lemma Holds.source {v : Value} (h : Holds cells i v) (hx : Stands cells choice i x) :
    x.source = sourceStates v := by
  cases v with
  | state t drawn o => rw [(h.2 _ _).mp hx]; rfl
  | free w o =>
    obtain ⟨j, -, hj, he⟩ := h
    exact ((hj.2 _ _).mp ((he _ _).mp hx)).1

lemma Holds.exists {v : Value} (h : Holds cells i v) (hne : sourceStates v ≠ [])
    (choice : ℕ → ℕ) : ∃ x, Stands cells choice i x := by
  cases v with
  | state t drawn o => exact ⟨_, (h.2 _ _).mpr rfl⟩
  | free w o =>
    obtain ⟨j, -, hj, he⟩ := h
    have hlt : choice j % w.states.length < w.states.length :=
      Nat.mod_lt _ (List.length_pos_iff.mpr hne)
    exact ⟨⟨w.states[choice j % w.states.length], w.states, _⟩,
      (he _ _).mpr ((hj.2 _ _).mpr ⟨rfl, rfl, List.getElem?_eq_getElem hlt⟩)⟩

/-- What a difference stands for depends on the list of the slot it refers to, and on nothing
else. -/
lemma stands_minus_iff {j : ℕ} {v : Value} {count : Int64} {operand : StateList}
    (hc : cells[i]? = some (.operation j .minus count operand span)) (hv : Holds cells j v)
    (hne : (sourceStates v).minus operand ≠ []) :
    Stands cells choice i x ↔
      match ((sourceStates v).minus operand).unique? with
      | some t => x.At [t] 0
      | none => x.At ((sourceStates v).minus operand)
          (choice i % ((sourceStates v).minus operand).length) := by
  rw [stands_linked_iff hc rfl]
  constructor
  · rintro ⟨y, hy, hx⟩
    rw [Image, hv.source hy] at hx
    exact hx
  · intro hx
    obtain ⟨y, hy⟩ := hv.exists (by rintro h; simp [h, StateList.minus] at hne) choice
    exact ⟨y, hy, by rw [Image, hv.source hy]; exact hx⟩

lemma unique?_getElem? {l : StateList} {t : Int} (h : l.unique? = some t) : l[0]? = some t := by
  cases l with
  | nil => simp [StateList.unique?] at h
  | cons a rest =>
    unfold StateList.unique? at h
    split at h <;> simp_all

/-- What the value of a slot may refer to: the slot itself, or a variable known at its own slot. -/
def Anchored (values : Slots) (i : ℕ) (v : Value) : Prop :=
  ∀ w (j : ℕ), v = .free w j → j = i ∨ valueAt values j = some (.free w j)

lemma anchored_state {t : ℤ} {drawn : Option Draw} {origin : ℤ} :
    Anchored values i (.state t drawn origin) := by
  rintro _ _ ⟨⟩

lemma anchored_own {v : Variable} : Anchored values i (.free v i) := by
  intro w j he
  simp only [Value.free.injEq, Nat.cast_inj] at he
  exact .inl he.2.symm

lemma holds_literal {t : Int} {drawn : Option Draw} {origin : Int}
    (hp : Proper (.literal t drawn))
    (h : ∀ choice x, Stands cells choice i x ↔
      x.At (sourceOf t drawn).1 (sourceOf t drawn).2.toNat) :
    Holds cells i (.state t drawn origin) :=
  ⟨hp, fun choice x => (h choice x).trans (at_iff hp.2)⟩

lemma holds_free {v : Variable} (hu : v.states.unique? = none)
    (h : ∀ choice x, Stands cells choice i x ↔ x.At v.states (choice i % v.states.length)) :
    Holds cells i (.free v i) :=
  ⟨i, rfl, ⟨hu, h⟩, fun _ _ => Iff.rfl⟩

/-- A looked-up state is all that its slot can take, since the slot referred to can take only
one. -/
lemma holds_lookUp {j : ℕ} {c : Cell} {images : StateList} {ellipsis : Bool} {t : Int}
    {drawn : Option Draw} {o : Int} {r : Resolution} (hc : cells[i]? = some c)
    (hr : c.ref? = some (j : Int)) (hv : Holds cells j (.state t drawn o))
    (himg : ∀ k x, c.Image k (standOf t drawn) x ↔
      x.At images (min (standOf t drawn).index (images.length - 1)))
    (h : lookUp images ellipsis t drawn i span = .ok r) :
    ∃ u d, r = .value (.state u d i) ∧ Holds cells i (.state u d i) := by
  obtain ⟨u, d, rfl, hp, hat⟩ := lookUp_ok hv.1 h
  refine ⟨u, d, rfl, hp, fun choice x => ?_⟩
  rw [stands_linked_iff hc hr]
  constructor
  · rintro ⟨y, hy, hx⟩
    rw [(hv.2 _ _).mp hy, himg] at hx
    exact hx.unique hat
  · rintro rfl
    exact ⟨_, (hv.2 _ _).mpr rfl, (himg _ _).mpr hat⟩

/-- A bound slot stands for what the slot it is bound to stands for. -/
lemma holds_binding {j : ℕ} {v : Value} (hc : cells[i]? = some (.binding j span))
    (hv : Holds cells j v) : Holds cells i (match v with
      | .free w origin => .free w origin
      | .state t drawn _ => .state t drawn i) := by
  have he : ∀ choice x, Stands cells choice i x ↔ Stands cells choice j x := by
    intro choice x
    rw [stands_linked_iff hc rfl]
    constructor
    · rintro ⟨y, hy, rfl⟩; exact hy
    · exact fun hx => ⟨x, hx, rfl⟩
  cases v with
  | state t drawn o => exact ⟨hv.1, fun choice x => (he choice x).trans (hv.2 choice x)⟩
  | free w o =>
    obtain ⟨l, rfl, hl, hjl⟩ := hv
    exact ⟨l, rfl, hl, fun choice x => (he choice x).trans (hjl choice x)⟩

lemma holds_remove {j : ℕ} {v : Value} {count : Int64} {operand : StateList} {r : Resolution}
    {span' : Span} (hc : cells[i]? = some (.operation j .minus count operand span'))
    (hv : Holds cells j v) (h : runFrom (remove operand v i span) s = (.ok r, s')) :
    ∃ w, r = .value w ∧ Holds cells i w ∧ Anchored values i w := by
  obtain ⟨hne, ⟨t, ht, rfl⟩ | ⟨hu, w, hw, rfl⟩⟩ := remove_ok h
  · refine ⟨_, rfl, holds_literal ⟨le_rfl, rfl⟩ fun choice x => ?_, anchored_state⟩
    rw [stands_minus_iff hc hv hne, ht]
    rfl
  · have hst := hw.states_eq
    refine ⟨_, rfl, holds_free (hst ▸ hu) fun choice x => ?_, anchored_own⟩
    rw [stands_minus_iff hc hv hne, hu, hst]

/-- **One cell.** A value that a cell resolves to says what its slot stands for, and a split is
asked for only at a slot known to be a variable. -/
lemma resolve_ok {c : Cell} {r : Resolution} (hc : cells[i]? = some c) (hp : Proper c)
    (hs : Sound cells values) (h : runFrom (c.resolve (valueAt values) i) s = (.ok r, s')) :
    (∃ slot v origin, r = .split slot ∧ valueAt values slot = some (.free v origin)) ∨
      ∃ v, r = .value v ∧ Holds cells i v ∧ Anchored values i v := by
  cases resolvesTo_of_ok h with
  | literal t drawn =>
    exact .inr ⟨_, rfl, ⟨hp, fun choice x => stands_own_iff hc rfl⟩, anchored_state⟩
  | single ht =>
    refine .inr ⟨_, rfl, holds_literal ⟨le_rfl, unique?_getElem? ht⟩ fun choice x => ?_,
      anchored_state⟩
    rw [stands_own_iff hc rfl, Own, ht]
    rfl
  | free hu =>
    refine .inr ⟨_, rfl, holds_free hu fun choice x => ?_, anchored_own⟩
    rw [stands_own_iff hc rfl, Own, hu]
    rfl
  | boundFree hv =>
    refine .inr ⟨_, rfl, holds_binding hc (hs.holds _ _ hv), ?_⟩
    intro w l he
    cases he
    exact .inr (hs.origin _ _ _ hv)
  | boundState hv => exact .inr ⟨_, rfl, holds_binding hc (hs.holds _ _ hv), anchored_state⟩
  | mapped hv hl =>
    obtain ⟨_, _, hval, hu⟩ := holds_lookUp hc rfl (hs.holds _ _ hv) (fun _ _ => Iff.rfl) hl
    cases hval
    exact .inr ⟨_, rfl, hu, anchored_state⟩
  | @shifted j count operand place t u drawn d origin hv hl =>
    have hj := hs.holds _ _ hv
    -- the index of a drawn state is below the length, so a shifted list is never read past its end
    have hmin : min (standOf t drawn).index (((sourceOf t drawn).1.shift count).length - 1) =
        (standOf t drawn).index := by
      have := (List.getElem?_eq_some_iff.mp hj.1.2).1
      rw [StateList.length_shift]
      exact min_eq_left (by simp only [standOf]; omega)
    obtain ⟨_, _, hval, hu⟩ := holds_lookUp hc rfl hj (fun k x => by rw [hmin]; exact Iff.rfl) hl
    cases hval
    exact .inr ⟨_, rfl, hu, anchored_state⟩
  | removed hv hr => exact .inr (holds_remove hc (hs.holds _ _ hv) hr)
  | splitMapping hv => exact .inl ⟨_, _, _, rfl, hv⟩
  | splitShift hv => exact .inl ⟨_, _, _, rfl, hv⟩

/-! ### All slots -/

lemma valueAt_set (values : Slots) (i : ℕ) (v : Value) (slot : Int) :
    valueAt (values.set! i (some v)) slot =
      if slot = i ∧ i < values.size then some v else valueAt values slot := by
  cases slot with
  | negSucc n => simp [valueAt, Int.toNat?]
  | ofNat n =>
    have hn : ∀ vs : Slots, valueAt vs (Int.ofNat n) = vs[n]?.join := fun _ => rfl
    rw [hn, hn, Array.set!_eq_setIfInBounds, Array.getElem?_setIfInBounds]
    by_cases hni : n = i
    · subst hni
      by_cases hlt : n < values.size <;> simp [hlt]
    · simp [hni, Ne.symm hni]

lemma valueAt_set_nat {k : ℕ} {v : Value} (hi : i < values.size) :
    valueAt (values.set! i (some v)) k = if k = i then some v else valueAt values k := by
  rw [valueAt_set]
  simp only [Nat.cast_inj, hi, and_true]

lemma lt_size_of_valueAt {v : Value} (h : valueAt values i = some v) : i < values.size := by
  by_contra hi
  rw [show valueAt values (i : Int) = values[i]?.join from rfl,
    Array.getElem?_eq_none (by omega)] at h
  cases h

/-- `values'` knows what `values` knows, and of the slots in `path` it knows no more. -/
structure Grows (path : List ℕ) (values values' : Slots) : Prop where
  size : values'.size = values.size
  known : ∀ slot v, valueAt values slot = some v → valueAt values' slot = some v
  waiting : ∀ j : ℕ, j ∈ path → valueAt values j = none → valueAt values' j = none

lemma Grows.refl (path : List ℕ) (values : Slots) : Grows path values values :=
  ⟨rfl, fun _ _ h => h, fun _ _ h => h⟩

lemma Grows.trans {path : List ℕ} {values values₁ values₂ : Slots} (h : Grows path values values₁)
    (h' : Grows path values₁ values₂) : Grows path values values₂ :=
  ⟨h'.size.trans h.size, fun _ _ hv => h'.known _ _ (h.known _ _ hv),
    fun j hj hv => h'.waiting j hj (h.waiting j hj hv)⟩

lemma Grows.mono {path path' : List ℕ} (h : Grows path values values') (hp : path' ⊆ path) :
    Grows path' values values' :=
  ⟨h.size, h.known, fun j hj => h.waiting j (hp hj)⟩

lemma grows_set {path : List ℕ} {v : Value} (hi : i < values.size) (hn : valueAt values i = none)
    (hp : i ∉ path) : Grows path values (values.set! i (some v)) where
  size := by simp
  known := by
    intro slot w hw
    obtain ⟨k, rfl⟩ := valueAt_some hw
    rw [valueAt_set_nat hi, if_neg, hw]
    rintro rfl
    rw [hn] at hw
    cases hw
  waiting := by
    intro j hj hw
    rw [valueAt_set_nat hi, if_neg (by rintro rfl; exact hp hj), hw]

/-- How far resolving has come: to values with the first property, or to a variable that must be
split and has the second. -/
def Progress.Meets (I : Slots → Prop) (S : Variable → ℤ → Prop) : Progress → Prop
  | .settled values => I values
  | .split v origin => S v origin

/-- What settling one cell comes to. -/
lemma settleCell_cases {last : ℕ} {c : Cell} {p : Progress}
    (h : runFrom (settleCell last span values i c) s = (.ok p, s')) :
    (∃ slot v origin, runFrom (c.resolve (valueAt values) i) s = (.ok (.split slot), s') ∧
      valueAt values slot = some (.free v origin) ∧ p = .split v origin) ∨
    ∃ v, runFrom (c.resolve (valueAt values) i) s = (.ok (.value v), s') ∧
      (∀ w, v = .free w i → i ≠ last) ∧ p = .settled (values.set! i (some v)) := by
  obtain ⟨r, s₁, hr, h⟩ := runFrom_bind_ok.mp h
  rw [runFrom_locating_ok] at hr
  cases r with
  | split slot =>
    rw [enter] at h
    split at h
    · next v origin hv =>
      cases h
      exact .inl ⟨slot, v, origin, hr, hv, rfl⟩
    · cases h
  | value v =>
    right
    cases v with
    | state t drawn origin =>
      cases h
      exact ⟨_, hr, nofun, rfl⟩
    | free w origin =>
      rw [enter] at h
      by_cases hlast : i = last ∧ origin = i
      · simp only [if_pos hlast, runFrom_bind, runFrom_refuse] at h
        cases h
      · simp only [if_neg hlast, runFrom_pure] at h
        cases h
        refine ⟨_, hr, ?_, rfl⟩
        rintro _ ⟨⟩ he
        exact hlast ⟨he, rfl⟩

/-- Entering the value that an unknown slot's cell resolves to keeps the first property, and a
variable that a cell wants split has the second. -/
structure Invariant (cells : List Cell) (I : Scope → Slots → Prop)
    (S : Scope → Variable → ℤ → Prop) : Prop where
  value : ∀ {s s' : Scope} {values : Slots} {i : ℕ} {c : Cell} {v : Value}, I s values →
    values.size = cells.length → cells[i]? = some c → valueAt values i = none →
    runFrom (c.resolve (valueAt values) i) s = (.ok (.value v), s') →
    (∀ w, v = .free w i → i ≠ cells.length - 1) → I s' (values.set! i (some v))
  split : ∀ {s s' : Scope} {values : Slots} {i : ℕ} {c : Cell} {slot origin : ℤ} {v : Variable},
    I s values → values.size = cells.length → cells[i]? = some c →
    runFrom (c.resolve (valueAt values) i) s = (.ok (.split slot), s') →
    valueAt values slot = some (.free v origin) → S s' v origin

section

variable {I : Scope → Slots → Prop} {S : Scope → Variable → ℤ → Prop} {p : Progress}

lemma Invariant.settleCell (hI : Invariant cells I S) {c : Cell} {path : List ℕ} (hs : I s values)
    (hsize : values.size = cells.length) (hc : cells[i]? = some c) (hn : valueAt values i = none)
    (hi : i ∉ path) (h : runFrom (settleCell (cells.length - 1) span values i c) s = (.ok p, s')) :
    p.Meets (I s') (S s') ∧
      ∀ values', p = .settled values' → Grows path values values' ∧ (valueAt values' i).isSome := by
  have hlt : i < values.size := hsize ▸ (List.getElem?_eq_some_iff.mp hc).1
  obtain ⟨slot, v, origin, hrun, hv, rfl⟩ | ⟨v, hrun, hown, rfl⟩ := settleCell_cases h
  · exact ⟨hI.split hs hsize hc hrun hv, nofun⟩
  · refine ⟨hI.value hs hsize hc hn hrun hown, ?_⟩
    rintro _ ⟨⟩
    refine ⟨grows_set hlt hn hi, ?_⟩
    rw [valueAt_set_nat hlt, if_pos rfl]
    rfl

/-- Resolving a slot after those it refers to. The slots that wait for it stay unknown, for
otherwise the references would go round. -/
lemma Invariant.settle (hI : Invariant cells I S) {depth : ℕ} {path : List ℕ} (hs : I s values)
    (hsize : values.size = cells.length)
    (h : runFrom (settle cells.toArray span depth path values i) s = (.ok p, s')) :
    p.Meets (I s') (S s') ∧
      ∀ values', p = .settled values' → Grows path values values' ∧ (valueAt values' i).isSome := by
  induction depth generalizing path values i s p s' with
  | zero => cases h
  | succ depth ih =>
    rw [Cell.settle] at h
    by_cases hknown : (valueAt values i).isSome
    · rw [if_pos hknown] at h
      cases h
      exact ⟨hs, by rintro _ ⟨⟩; exact ⟨.refl _ _, hknown⟩⟩
    have hn : valueAt values i = none := by simpa using hknown
    rw [if_neg hknown] at h
    by_cases hpath : path.contains i
    · rw [if_pos hpath] at h
      cases h
    rw [if_neg hpath] at h
    have hi : i ∉ path := by simpa using hpath
    cases hc : cells[i]? with
    | none => simp [hc] at h
    | some c =>
      simp only [List.getElem?_toArray, hc] at h
      cases hr : c.ref? with
      | none =>
        simp only [hr] at h
        exact hI.settleCell hs hsize hc hn hi h
      | some ref =>
        simp only [hr] at h
        split at h
        · simp [runFrom_bind] at h
        obtain ⟨q, s₁, hq, h⟩ := runFrom_bind_ok.mp h
        obtain ⟨hmeets, hgrows⟩ := ih hs hsize hq
        cases q with
        | split v origin =>
          cases h
          exact ⟨hmeets, nofun⟩
        | settled values₁ =>
          obtain ⟨hg, -⟩ := hgrows _ rfl
          obtain ⟨hmeets', hgrows'⟩ := hI.settleCell hmeets (hg.size.trans hsize) hc
            (hg.waiting i List.mem_cons_self hn) hi h
          refine ⟨hmeets', fun values' he => ?_⟩
          obtain ⟨hg', hk⟩ := hgrows' values' he
          exact ⟨(hg.mono (List.subset_cons_self _ _)).trans hg', hk⟩

/-- **All slots** in turn. -/
lemma Invariant.settleAll (hI : Invariant cells I S) {slots : List ℕ} (hs : I s values)
    (hsize : values.size = cells.length)
    (h : runFrom (settleAll cells.toArray span slots values) s = (.ok p, s')) :
    p.Meets (I s') (S s') ∧ ∀ values', p = .settled values' →
      Grows [] values values' ∧ ∀ i ∈ slots, (valueAt values' i).isSome := by
  induction slots generalizing values s with
  | nil =>
    cases h
    exact ⟨hs, by rintro _ ⟨⟩; exact ⟨.refl _ _, by simp⟩⟩
  | cons i rest ih =>
    rw [Cell.settleAll] at h
    obtain ⟨q, s₁, hq, h⟩ := runFrom_bind_ok.mp h
    obtain ⟨hmeets, hgrows⟩ := hI.settle hs hsize hq
    cases q with
    | split v origin =>
      cases h
      exact ⟨hmeets, nofun⟩
    | settled values₁ =>
      obtain ⟨hg, hi⟩ := hgrows _ rfl
      obtain ⟨hmeets', hgrows'⟩ := ih hmeets (hg.size.trans hsize) h
      refine ⟨hmeets', fun values' he => ?_⟩
      obtain ⟨hg', hk⟩ := hgrows' values' he
      refine ⟨hg.trans hg', fun k hmem => ?_⟩
      rcases List.mem_cons.mp hmem with rfl | hmem
      · obtain ⟨v, hv⟩ := Option.isSome_iff_exists.mp hi
        rw [hg'.known _ _ hv]
        rfl
      · exact hk k hmem

end

/-! ### What slots stand for -/

lemma Sound.set {v : Value} (hs : Sound cells values) (hi : i < values.size)
    (hn : valueAt values i = none) (hv : Holds cells i v) (ha : Anchored values i v)
    (hr : ∀ w, v = .free w i → i ≠ cells.length - 1) :
    Sound cells (values.set! i (some v)) where
  holds := by
    intro k w hw
    rw [valueAt_set_nat hi] at hw
    split at hw
    · next hk => cases hw; exact hk ▸ hv
    · exact hs.holds k w hw
  origin := by
    intro k j w hw
    rw [valueAt_set_nat hi] at hw ⊢
    by_cases hj : j = i
    · subst hj
      rw [if_pos rfl]
      split at hw
      · exact hw
      · rw [hs.origin k j w hw] at hn
        cases hn
    · rw [if_neg hj]
      split at hw
      · cases hw
        exact (ha w j rfl).resolve_left hj
      · exact hs.origin k j w hw
  result := by
    intro w hw
    rw [valueAt_set_nat hi] at hw
    split at hw
    · next hlast =>
      rw [hlast] at hw
      exact hr w (Option.some.inj hw) hlast.symm
    · exact hs.result w hw

/-- How far resolving may come: to more values that are sound, or to a variable whose slot may take
any of its states. -/
def Advances (cells : List Cell) (path : List ℕ) (values : Slots) : Progress → Prop
  | .settled values' => Sound cells values' ∧ Grows path values values'
  | .split v origin => ∃ j : ℕ, origin = j ∧ j < cells.length ∧ Owns cells j v

/-- A variable that must be split belongs to a slot that takes any of its states. -/
def Splittable (cells : List Cell) (v : Variable) (origin : ℤ) : Prop :=
  ∃ j : ℕ, origin = j ∧ j < cells.length ∧ Owns cells j v

lemma invariant_sound (hproper : ∀ c ∈ cells, Proper c) :
    Invariant cells (fun _ => Sound cells) (fun _ => Splittable cells) where
  value {s s' values i c v} hs hsize hc hn hrun hown := by
    have hlt : i < values.size := hsize ▸ (List.getElem?_eq_some_iff.mp hc).1
    obtain ⟨_, _, _, ⟨⟩, -⟩ | ⟨_, ⟨⟩, hv, ha⟩ :=
      resolve_ok hc (hproper c (List.mem_of_getElem? hc)) hs hrun
    exact hs.set hlt hn hv ha hown
  split {s s' values i c slot origin v} hs hsize _ _ hv := by
    obtain ⟨k, rfl⟩ := valueAt_some hv
    obtain ⟨j, rfl, ho, -⟩ := hs.holds _ _ hv
    exact ⟨j, rfl, hsize ▸ lt_size_of_valueAt (hs.origin _ _ _ hv), ho⟩

lemma settle_ok (hproper : ∀ c ∈ cells, Proper c) {p : Progress} {depth : ℕ} {path : List ℕ}
    (hs : Sound cells values) (hsize : values.size = cells.length)
    (h : runFrom (settle cells.toArray span depth path values i) s = (.ok p, s')) :
    Advances cells path values p ∧
      ∀ values', p = .settled values' → (valueAt values' i).isSome := by
  obtain ⟨hmeets, hgrows⟩ := (invariant_sound hproper).settle hs hsize h
  refine ⟨?_, fun values' he => (hgrows values' he).2⟩
  cases p with
  | split v origin => exact hmeets
  | settled values' => exact ⟨hmeets, (hgrows values' rfl).1⟩

/-- **All slots.** The values found are sound, and every slot that was asked for is known. -/
lemma settleAll_ok (hproper : ∀ c ∈ cells, Proper c) {p : Progress} {slots : List ℕ}
    (hs : Sound cells values) (hsize : values.size = cells.length)
    (h : runFrom (settleAll cells.toArray span slots values) s = (.ok p, s')) :
    Advances cells [] values p ∧
      ∀ values', p = .settled values' → ∀ i ∈ slots, (valueAt values' i).isSome := by
  obtain ⟨hmeets, hgrows⟩ := (invariant_sound hproper).settleAll hs hsize h
  refine ⟨?_, fun values' he => (hgrows values' he).2⟩
  cases p with
  | split v origin => exact hmeets
  | settled values' => exact ⟨hmeets, (hgrows values' rfl).1⟩

end Cell

end RuleTable
