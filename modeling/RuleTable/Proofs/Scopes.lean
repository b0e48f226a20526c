import RuleTable.Proofs.Running
import RuleTable.States.Eval

/-!
How scopes grow. A computation on a scope only appends variables, so whatever was found by name or
by its states is found again later.
-/

namespace RuleTable.Scope

variable {s s₁ s₂ s₃ : Scope}

/-- The later scope has the variables of the earlier one, and more after them. -/
def Extends (s s' : Scope) : Prop :=
  s'.stateCount = s.stateCount ∧ ∃ more, s'.vars.toList = s.vars.toList ++ more

@[refl] lemma Extends.refl (s : Scope) : s.Extends s := ⟨rfl, [], by simp⟩

@[trans] lemma Extends.trans (h : s₁.Extends s₂) (h' : s₂.Extends s₃) : s₁.Extends s₃ := by
  obtain ⟨e, m, hm⟩ := h
  obtain ⟨e', m', hm'⟩ := h'
  exact ⟨e'.trans e, m ++ m', by rw [hm', hm, List.append_assoc]⟩

instance : Std.Refl Extends := ⟨Extends.refl⟩

instance : IsTrans Scope Extends := ⟨fun _ _ _ => Extends.trans⟩

lemma Extends.mem {v : Variable} (h : s₁.Extends s₂) (hv : v ∈ s₁.vars) : v ∈ s₂.vars := by
  obtain ⟨-, m, hm⟩ := h
  rw [← Array.mem_toList_iff, hm]
  exact List.mem_append_left _ (Array.mem_toList_iff.mpr hv)

lemma Extends.find? {p : Variable → Bool} {v : Variable} (h : s₁.Extends s₂)
    (hv : s₁.vars.find? p = some v) : s₂.vars.find? p = some v := by
  obtain ⟨-, m, hm⟩ := h
  rw [← Array.find?_toList] at hv ⊢
  rw [hm, List.find?_append, hv]
  rfl

/-- The variable is the one without a name that the scope has for these states. -/
def Holds (s : Scope) (states : StateList) (v : Variable) : Prop :=
  s.vars.find? (fun v => v.anonymous && v.states == states) = some v

lemma Holds.states_eq {states : StateList} {v : Variable} (h : s.Holds states v) :
    v.states = states := by
  have := Array.find?_some h
  simp only [Bool.and_eq_true, beq_iff_eq] at this
  exact this.2

lemma Holds.unique {states : StateList} {v w : Variable} (hv : s₁.Holds states v)
    (h : s₁.Extends s₂) (hw : s₂.Holds states w) : v = w :=
  Option.some.inj ((h.find? hv).symm.trans hw)

lemma addAnonymous_ok {name? : NameSource → Option (String × NameSource)} {states : StateList}
    {v : Variable} (h : runFrom (addAnonymous name? states) s₁ = (.ok v, s₂)) :
    ∃ names, name? s₁.names = some (v.name, names) ∧
      v = { name := v.name, states := states, anonymous := true } ∧
      s₂ = { s₁ with vars := s₁.vars.push v, names := names } := by
  unfold addAnonymous at h
  simp only [runFrom_bind, runFrom_get] at h
  cases hn : name? s₁.names with
  | none => simp [hn] at h
  | some p =>
    simp only [hn, runFrom_bind, runFrom_set, runFrom_pure, Prod.mk.injEq, Except.ok.injEq] at h
    obtain ⟨rfl, rfl⟩ := h
    exact ⟨_, rfl, rfl, rfl⟩

lemma runFrom_anonymous (states : StateList) (s : Scope) :
    runFrom (anonymous states) s =
      match s.vars.find? fun v => v.anonymous && v.states == states with
      | some v => (.ok v, s)
      | none => runFrom (addAnonymous NameSource.fresh? states) s := by
  unfold anonymous
  simp only [runFrom_bind, runFrom_get]
  cases s.vars.find? fun v => v.anonymous && v.states == states <;> rfl

lemma anonymous_ok {states : StateList} {v : Variable}
    (h : runFrom (anonymous states) s₁ = (.ok v, s₂)) : s₂.Holds states v := by
  rw [runFrom_anonymous] at h
  cases hf : s₁.vars.find? fun v => v.anonymous && v.states == states with
  | some w =>
    simp only [hf, Prod.mk.injEq, Except.ok.injEq] at h
    obtain ⟨rfl, rfl⟩ := h
    exact hf
  | none =>
    simp only [hf] at h
    obtain ⟨names, -, hv, rfl⟩ := addAnonymous_ok h
    unfold Holds
    rw [Array.find?_push, hf, hv]
    simp

lemma addAnonymous_error {name? : NameSource → Option (String × NameSource)} {states : StateList}
    {e : Stop} (h : runFrom (addAnonymous name? states) s₁ = (.error e, s₂)) :
    e = .crash ∧ s₂ = s₁ := by
  unfold addAnonymous at h
  simp only [runFrom_bind, runFrom_get] at h
  cases hn : name? s₁.names with
  | none =>
    rw [hn] at h
    cases h
    exact ⟨rfl, rfl⟩
  | some p =>
    rw [hn] at h
    cases h

lemma anonymous_error {states : StateList} {e : Stop}
    (h : runFrom (anonymous states) s₁ = (.error e, s₂)) : e = .crash := by
  rw [runFrom_anonymous] at h
  split at h
  · cases h
  · exact (addAnonymous_error h).1

lemma addAnonymous_steps (name? : NameSource → Option (String × NameSource)) (states : StateList) :
    Steps Extends (addAnonymous name? states) := by
  intro s
  unfold addAnonymous
  simp only [runFrom_bind, runFrom_get]
  cases name? s.names with
  | none => exact .refl _
  | some p => exact ⟨rfl, [_], Array.toList_push⟩

/-- Scopes develop like this as long as no variable is declared but such as have no name. -/
class Growth (R : Scope → Scope → Prop) : Prop extends Std.Refl R, IsTrans Scope R where
  anonymous_steps : ∀ states, Steps R (anonymous states)

export Growth (anonymous_steps)

instance : Growth Extends where
  anonymous_steps states s := by
    rw [runFrom_anonymous]
    split
    · exact .refl _
    · exact addAnonymous_steps _ _ _

end RuleTable.Scope
