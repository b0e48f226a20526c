import RuleTable.Proofs.Frames
import RuleTable.Proofs.Evaluation

/-!
The states and variables that occur in rows.

A slot holds a state or a variable of the scope, or it takes over what another slot holds, or it
needs a variable for a list of states, which the scope then has. So all variables that occur in the
rows of a layout are variables of the scope, they stay there when the scope grows, and they range
over states of the scope. No list of states becomes empty on the way, so if the variables of the
layout have states, those of the rows have some too.
-/

namespace RuleTable

open Scope

section

variable {s s' : Scope} {full : Prop} {u : Value} {c : Cell} {row : Row} {v : Variable}

/-- The variable is one of the scope, and its states are states of the scope. -/
structure Variable.Within (full : Prop) (s : Scope) (v : Variable) : Prop where
  mem : v ∈ s.vars
  filled : s.Filled full v.states

/-- The state is one of the scope, and so are those among which it was drawn. -/
structure StateWithin (s : Scope) (x : ℤ) (drawn : Option Draw) : Prop where
  below : 0 ≤ x ∧ x < s.stateCount
  source : (Cell.sourceOf x drawn).1.Below s.stateCount

def Value.Within (full : Prop) (s : Scope) : Value → Prop
  | .free v _ => v.Within full s
  | .state x drawn _ => StateWithin s x drawn

/-- The cell names no states and variables but those of the scope. -/
def Cell.Within (full : Prop) (s : Scope) : Cell → Prop
  | .literal x drawn => StateWithin s x drawn
  | .free v => v.Within full s
  | .mapping _ images _ _ => images.Below s.stateCount
  | _ => True

def Row.Within (full : Prop) (s : Scope) (row : Row) : Prop := ∀ u ∈ row, u.Within full s

lemma Variable.Within.mono (h : v.Within full s) (hs : s.Extends s') : v.Within full s' :=
  ⟨hs.mem h.mem, hs.1 ▸ h.filled.below, h.filled.ne_nil⟩

lemma StateWithin.mono {x : ℤ} {drawn : Option Draw} (h : StateWithin s x drawn)
    (hs : s.Extends s') : StateWithin s' x drawn := ⟨hs.1 ▸ h.below, hs.1 ▸ h.source⟩

lemma Value.Within.mono (h : u.Within full s) (hs : s.Extends s') : u.Within full s' := by
  cases u with
  | free v o => exact Variable.Within.mono h hs
  | state x drawn o => exact StateWithin.mono h hs

lemma Cell.Within.mono (h : c.Within full s) (hs : s.Extends s') : c.Within full s' := by
  cases c with
  | literal x drawn => exact StateWithin.mono h hs
  | free v => exact Variable.Within.mono h hs
  | mapping ref images ellipsis span => exact (hs.1 ▸ h : images.Below s'.stateCount)
  | binding | operation | absent => trivial

lemma Row.Within.mono (h : row.Within full s) (hs : s.Extends s') : row.Within full s' :=
  fun u hu => (h u hu).mono hs

lemma Row.Within.variable {o : ℤ} (h : row.Within full s) (hv : .free v o ∈ row) :
    v.Within full s :=
  h _ hv

lemma StateWithin.single {x : ℤ} (h : 0 ≤ x ∧ x < s.stateCount) : StateWithin s x none := by
  refine ⟨h, fun y hy => ?_⟩
  rw [List.mem_singleton.mp hy]
  exact h

lemma StateWithin.drawn {x : ℤ} {d : Draw} (hx : x ∈ d.source.states)
    (h : d.source.states.Below s.stateCount) : StateWithin s x (some d) := ⟨h x hx, h⟩

lemma Value.Within.source (h : u.Within full s) : (Cell.sourceStates u).Below s.stateCount := by
  cases u with
  | free v o => exact h.filled.below
  | state x drawn o => exact h.source

end

/-! ### The rows of a layout -/

namespace Cell

variable {s s' : Scope} {full : Prop} {span : Span} {i : ℕ} {values : Slots}

def Slots.Within (full : Prop) (s : Scope) (values : Slots) : Prop :=
  ∀ slot u, valueAt values slot = some u → u.Within full s

/-- Whatever has become known is within the scope, and so is a variable that must be split. -/
def Progress.Within (full : Prop) (s : Scope) : Progress → Prop
  | .settled values => Slots.Within full s values
  | .split v _ => v.Within full s

lemma Slots.Within.mono (h : Slots.Within full s values) (hs : s.Extends s') :
    Slots.Within full s' values :=
  fun slot u hu => (h slot u hu).mono hs

lemma Slots.Within.set {u : Value} (h : Slots.Within full s values) (hu : u.Within full s) (i : ℕ) :
    Slots.Within full s (values.set! i (some u)) := by
  intro slot w hw
  rw [valueAt_set] at hw
  split at hw
  · cases hw
    exact hu
  · exact h slot w hw

lemma lookUp_within {images : StateList} {ellipsis : Bool} {t : ℤ} {drawn : Option Draw} {slot : ℤ}
    {u : Value} (himages : images.Below s.stateCount)
    (h : lookUp images ellipsis t drawn slot span = .ok (.value u)) : u.Within full s := by
  obtain ⟨x, hx, d, hd, hu⟩ := lookUp_state h
  cases hu
  exact .drawn (hd ▸ hx) (hd ▸ himages)

lemma remove_within {operand : StateList} {u w : Value} {slot : ℤ} (hu : u.Within full s)
    (h : runFrom (remove operand u slot span) s = (.ok (.value w), s')) : w.Within full s' := by
  have hs : s.Extends s' := (remove_steps (R := Extends) _ _ _ _).run h
  obtain ⟨hne, hcases⟩ := remove_ok h
  have hrest : ((sourceStates u).minus operand).Below s'.stateCount :=
    hs.1 ▸ hu.source.of_subset fun x hx => (StateList.mem_minus.mp hx).1
  rcases hcases with ⟨t, ht, hw⟩ | ⟨-, v, hv, hw⟩
  · cases hw
    exact .single (hrest t (List.mem_of_getElem? (unique?_getElem? ht)))
  · cases hw
    have hstates := hv.states_eq
    exact ⟨Array.mem_of_find?_eq_some hv, hstates ▸ hrest, fun _ => hstates ▸ hne⟩

lemma resolve_within {c : Cell} {i : ℕ} {u : Value} (hc : c.Within full s)
    (hv : Slots.Within full s values)
    (h : runFrom (c.resolve (valueAt values) i) s = (.ok (.value u), s')) : u.Within full s' := by
  cases resolvesTo_of_ok h with
  | literal t d => exact hc
  | single ht => exact .drawn (List.mem_of_getElem? (unique?_getElem? ht)) hc.filled.below
  | free _ => exact hc
  | boundFree hj => exact hv _ _ hj
  | @boundState j place t d origin hj => exact (hv _ _ hj : StateWithin s t d)
  | mapped _ hl => exact lookUp_within hc hl
  | @shifted j count operand place t u d d' origin hj hl =>
    have hu : StateWithin s t d := hv _ _ hj
    have hpos : 0 < s.stateCount := by
      have := hu.below
      omega
    exact lookUp_within (hu.source.shift hpos count) hl
  | removed hj hr => exact remove_within (hv _ _ hj) hr

variable {cells : List Cell}

lemma invariant_within : Invariant cells
    (fun s values => (∀ c ∈ cells, c.Within full s) ∧ Slots.Within full s values)
    (fun s v _ => v.Within full s) where
  value := by
    rintro s s' values i c v ⟨hc, hv⟩ - hi - hrun -
    have hs := (resolve_steps (R := Extends) (valueAt values) i c).run hrun
    refine ⟨fun c hmem => (hc c hmem).mono hs, (hv.mono hs).set ?_ i⟩
    exact resolve_within (hc c (List.mem_of_getElem? hi)) hv hrun
  split := by
    rintro s s' values i c slot origin v ⟨-, hv⟩ - - hrun hslot
    exact (hv _ _ hslot).mono ((resolve_steps (R := Extends) (valueAt values) i c).run hrun)

lemma settleAll_within (hc : ∀ c ∈ cells, c.Within full s) {p : Progress} {slots : List ℕ}
    (hv : Slots.Within full s values) (hsize : values.size = cells.length)
    (h : runFrom (settleAll cells.toArray span slots values) s = (.ok p, s')) :
    p.Within full s' := by
  obtain ⟨hmeets, -⟩ := invariant_within.settleAll ⟨hc, hv⟩ hsize h
  cases p with
  | settled values' => exact hmeets.2
  | split v origin => exact hmeets

lemma within_set {j : ℕ} {t : ℤ} {d : Option Draw} (hc : ∀ c ∈ cells, c.Within full s)
    (ht : StateWithin s t d) : ∀ c ∈ cells.set j (.literal t d), c.Within full s := by
  intro c h
  rcases List.mem_or_eq_of_mem_set h with h | rfl
  · exact hc c h
  · exact ht

lemma RowOf.within {row : Row} (hc : ∀ c ∈ cells, c.Within full s) (h : RowOf span cells s row s') :
    row.Within full s' := by
  have hstart : ∀ n s, Slots.Within full s (Array.replicate n none) := by
    intro n s slot u hu
    obtain ⟨j, rfl⟩ := valueAt_some hu
    rw [valueAt_replicate] at hu
    cases hu
  induction h with
  | settled h hrow =>
    intro u hu
    obtain ⟨i, hi⟩ := List.mem_iff_getElem?.mp hu
    exact settleAll_within hc (hstart _ _) Array.size_replicate h i u ((hrow.valueAt i).trans hi)
  | split h hk hs _ hs' ih =>
    have hv : Variable.Within full _ _ := settleAll_within hc (hstart _ _) Array.size_replicate h
    have hs₁ := ((settleAll_steps (R := Extends) _ _ _ _).run h).trans hs
    refine (ih (within_set (fun c hmem => (hc c hmem).mono hs₁) ?_)).mono hs'
    exact .drawn (List.mem_of_getElem? hk) (hv.mono hs).filled.below

/-- **The rows of a layout** hold no states and variables but those of the scope. -/
lemma expand_within {rows : List Row} (hc : ∀ c ∈ cells, c.Within full s)
    (h : runFrom (expand cells span) s = (.ok rows, s')) : ∀ row ∈ rows, row.Within full s' := by
  obtain ⟨all, s₁, hall, h⟩ := runFrom_bind_ok.mp h
  cases h
  exact fun row hrow => (rowOf_of_mem_branch hall row (Row.mem_of_mem_distinct hrow)).within hc

end Cell

end RuleTable
