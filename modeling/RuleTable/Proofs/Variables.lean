import RuleTable.Proofs.Ranges

/-!
Which variable is meant.

A scope is asked to declare lists under names, to find a variable for a list, to look names up and
to evaluate expressions, in any order. Names in use are those of its variables, whoever chose them,
and a list has one variable without a name at most. A call keeps this and only appends variables, so
after any calls a name and a list each mean one variable, and they mean it for good.
-/

namespace RuleTable.Scope

/-! ### Calls -/

inductive Call
  | define (name : String) (states : StateList) (span : Span)
  | anonymous (states : StateList)
  | lookup (name : String)
  | eval (e : Expr)

def Call.Answer : Call → Type
  | .define .. | .anonymous _ => Variable
  | .lookup _ => Option Variable
  | .eval _ => StateList

def Call.perform : (call : Call) → ScopeM call.Answer
  | .define name states span => Scope.define name states span
  | .anonymous states => Scope.anonymous states
  | .lookup name => do return (← get).lookup name
  | .eval e => do (← get).eval e

/-- The scope after calls one after another, whether they were met or refused. -/
def after (s : Scope) (calls : List Call) : Scope :=
  calls.foldl (fun s call => (runFrom call.perform s).2) s

variable {s s' : Scope} {v : Variable} {l : StateList}

/-! ### One call -/

/-- What holds of a scope however it is used: the names in use are those of its variables, which are
all different; the variables without a name of their own hold different lists under names that were
drawn. -/
structure Tidy (s : Scope) : Prop where
  named : s.WellNamed fun _ => True
  taken : ∀ name, s.names.taken name = true → ∃ v ∈ s.vars, v.name = name
  lists : ((s.vars.toList.filter (·.anonymous)).map (·.states)).Nodup
  drawn : ∀ v ∈ s.vars, v.anonymous = true → IsDrawn v.name

lemma Tidy.push (h : s.Tidy) {names : NameSource} (hnew : s.names.taken v.name = false)
    (hnames : ∀ other, names.taken other = true ↔ v.name = other ∨ s.names.taken other = true)
    (hanon : v.anonymous = true → IsDrawn v.name ∧ ∀ w ∈ s.vars,
      w.anonymous = true → w.states ≠ v.states) :
    Tidy { s with vars := s.vars.push v, names := names } := by
  refine ⟨h.named.push hnew (.inr trivial) hnames, fun name hname => ?_, ?_, fun w hw hw' => ?_⟩
  · rcases (hnames name).mp hname with rfl | hname
    · exact ⟨v, Array.mem_push_self, rfl⟩
    · obtain ⟨w, hw, he⟩ := h.taken name hname
      exact ⟨w, Array.mem_push_of_mem v hw, he⟩
  · rw [Array.toList_push, List.filter_append, List.map_append]
    cases hv : v.anonymous with
    | false => simpa [hv] using h.lists
    | true =>
      rw [List.filter_singleton, hv]
      refine List.nodup_append_comm.mp (List.nodup_cons.mpr ⟨fun hmem => ?_, h.lists⟩)
      obtain ⟨w, hw, he⟩ := List.mem_map.mp hmem
      obtain ⟨hw, hw'⟩ := List.mem_filter.mp hw
      exact (hanon hv).2 w (Array.mem_toList_iff.mp hw) hw' he
  · rcases Array.mem_push.mp hw with hw | rfl
    · exact h.drawn w hw hw'
    · exact (hanon hw').1

lemma tidy_create {n : ℤ} {seed : UInt64} (h : create n (.ofSeed seed) = .ok s) : s.Tidy := by
  have hnamed : s.WellNamed fun _ => True := wellNamed_create h
  unfold create at h
  split at h
  · cases h
  cases h
  refine ⟨hnamed, fun name hname => ?_, by simp [declare], by simp [declare]⟩
  simpa [declare, NameSource.taken, NameSource.reserve, NameSource.ofSeed, or_comm] using hname

lemma Tidy.define (h : s.Tidy) (name : String) (l : StateList) (span : Span) :
    (runFrom (define name l span) s).2.Tidy := by
  obtain hsame | ⟨hfree, -, hdeclared⟩ := define_cases name l span s
  · rwa [hsame]
  · rw [hdeclared]
    exact h.push hfree (fun _ => NameSource.taken_reserve _ _ _) (by rintro ⟨⟩)

lemma Tidy.anonymous (h : s.Tidy) (l : StateList) : (runFrom (anonymous l) s).2.Tidy := by
  rw [runFrom_anonymous]
  split
  · exact h
  next hnone =>
  rcases hrun : runFrom (addAnonymous NameSource.fresh? l) s with ⟨e | v, s'⟩
  · exact (addAnonymous_error hrun).2 ▸ h
  · obtain ⟨names, hname, hv, rfl⟩ := addAnonymous_ok hrun
    obtain ⟨hnew, hdrawn, hnames⟩ := NameSource.fresh?_ok hname
    refine h.push hnew hnames fun _ => ⟨hdrawn, fun w hw hw' he => ?_⟩
    have := Array.find?_eq_none.mp hnone w hw
    rw [hv] at he
    simp [hw', he] at this

/-- **A call** leaves a scope in order. -/
lemma Tidy.perform (h : s.Tidy) (call : Call) : (runFrom call.perform s).2.Tidy := by
  cases call with
  | define name states span => exact h.define name states span
  | anonymous states => exact h.anonymous states
  | lookup name => exact h
  | eval e => exact h

lemma define_extends (name : String) (l : StateList) (span : Span) :
    Steps Extends (define name l span) := by
  intro s
  obtain hsame | ⟨-, -, hdeclared⟩ := define_cases name l span s
  · rw [hsame]
  · rw [hdeclared]
    exact ⟨rfl, [_], Array.toList_push⟩

/-- **A call** only appends variables. -/
lemma perform_extends (call : Call) : Steps Extends call.perform := by
  cases call with
  | define name states span => exact define_extends name states span
  | anonymous states => exact anonymous_steps states
  | lookup name => exact fun s => .refl s
  | eval e => exact fun s => .refl s

/-! ### Any number of calls -/

lemma Tidy.after (h : s.Tidy) (calls : List Call) : (s.after calls).Tidy := by
  induction calls generalizing s with
  | nil => exact h
  | cons call calls ih => exact ih (h.perform call)

lemma extends_after (s : Scope) (calls : List Call) : s.Extends (s.after calls) := by
  induction calls generalizing s with
  | nil => exact .refl s
  | cons call calls ih => exact (perform_extends call s).trans (ih _)

/-! ### What a name and a list mean -/

lemma Tidy.taken_iff (h : s.Tidy) (name : String) :
    s.names.taken name = true ↔ ∃ v ∈ s.vars, v.name = name := by
  refine ⟨h.taken name, ?_⟩
  rintro ⟨v, hv, rfl⟩
  exact h.named.taken v hv

/-- **A name means one variable.** The first variable of a name is the only one, so looking a name
up is asking a map from names to variables. -/
lemma Tidy.lookup_eq_some_iff (h : s.Tidy) {name : String} :
    s.lookup name = some v ↔ v ∈ s.vars ∧ v.anonymous = false ∧ v.name = name := by
  refine ⟨lookup_some, ?_⟩
  rintro ⟨hv, hanon, rfl⟩
  have hfound : (s.lookup v.name).isSome := Array.find?_isSome.mpr ⟨v, hv, by simp [hanon]⟩
  obtain ⟨w, hw⟩ := Option.isSome_iff_exists.mp hfound
  obtain ⟨hmem, -, hname⟩ := lookup_some hw
  rw [hw, h.named.apart w hmem v hv hname]

/-- **A list means one variable** without a name, so finding it is asking a map from lists. -/
lemma Tidy.holds_iff (h : s.Tidy) :
    s.Holds l v ↔ v ∈ s.vars ∧ v.anonymous = true ∧ v.states = l := by
  have hfind : ∀ {w}, s.Holds l w → w ∈ s.vars ∧ w.anonymous = true ∧ w.states = l := by
    intro w hw
    refine ⟨Array.mem_of_find?_eq_some hw, ?_⟩
    simpa using Array.find?_some hw
  refine ⟨hfind, ?_⟩
  rintro ⟨hv, hanon, rfl⟩
  have hfound : (s.vars.find? fun w => w.anonymous && w.states == v.states).isSome :=
    Array.find?_isSome.mpr ⟨v, hv, by simp [hanon]⟩
  obtain ⟨w, hw⟩ := Option.isSome_iff_exists.mp hfound
  obtain ⟨hmem, hanon', hstates⟩ := hfind hw
  have hnameless : ∀ {u : Variable}, u ∈ s.vars → u.anonymous = true →
      u ∈ s.vars.toList.filter (·.anonymous) := fun hu hu' =>
    List.mem_filter.mpr ⟨Array.mem_toList_iff.mpr hu, hu'⟩
  obtain rfl := List.inj_on_of_nodup_map h.lists (hnameless hmem hanon')
    (hnameless hv hanon) hstates
  exact hw

lemma lookup_declare {name : String} (h : s.lookup name = none) (l : StateList) (span : Span) :
    (s.declare ⟨name, l, false, span⟩).lookup name = some ⟨name, l, false, span⟩ := by
  unfold lookup at h
  unfold lookup declare
  rw [Array.find?_push, h]
  simp

/-- A name that some variable has is refused, and so is a list without states. All else is declared,
and can be found from then on. -/
lemma Tidy.define_result (h : s.Tidy) (name : String) (l : StateList) (span : Span) :
    (∃ f, runFrom (Scope.define name l span) s = (.error (.refused f), s) ∧
      ((∃ v ∈ s.vars, v.name = name) ∨ l = [])) ∨
    ∃ s', runFrom (Scope.define name l span) s = (.ok ⟨name, l, false, span⟩, s') ∧
      (∀ v ∈ s.vars, v.name ≠ name) ∧ l ≠ [] ∧ s'.lookup name = some ⟨name, l, false, span⟩ := by
  rw [runFrom_define]
  split
  · next hfound =>
    obtain ⟨v, hv⟩ := Option.isSome_iff_exists.mp hfound
    obtain ⟨hmem, -, hname⟩ := h.lookup_eq_some_iff.mp hv
    exact .inl ⟨_, rfl, .inl ⟨v, hmem, hname⟩⟩
  next hnone =>
  split
  · next htaken => exact .inl ⟨_, rfl, .inl ((h.taken_iff name).mp htaken)⟩
  next hfree =>
  split
  · next hnil => exact .inl ⟨_, rfl, .inr (by simpa using hnil)⟩
  next hne =>
  exact .inr ⟨_, rfl, fun v hv he => hfree ((h.taken_iff name).mpr ⟨v, hv, he⟩), by simpa using hne,
    lookup_declare (Option.not_isSome_iff_eq_none.mp hnone) l span⟩

/-- A list that has a variable gets the same one again. -/
lemma Holds.asked_again (h : s.Holds l v) (calls : List Call) :
    runFrom (anonymous l) (s.after calls) = (.ok v, s.after calls) := by
  rw [runFrom_anonymous, (extends_after s calls).find? h]

/-- **Names are unambiguous.** After any calls on a new scope all variables have different names,
those without a name of their own hold different lists, and what they are called was drawn. A list
that was given a variable is given the same one from then on, and a name that was found means the
same variable from then on. A declaration is refused only for a name in use or for want of states,
and then it leaves the scope and its names as they were. -/
theorem after_unambiguous {n : ℤ} {seed : UInt64} (h : create n (.ofSeed seed) = .ok s)
    (calls : List Call) :
    ((s.after calls).vars.toList.map (·.name)).Nodup ∧
    (((s.after calls).vars.toList.filter (·.anonymous)).map (·.states)).Nodup ∧
    (∀ v ∈ (s.after calls).vars, v.anonymous = true → IsDrawn v.name) ∧
    (∀ l v s', runFrom (anonymous l) (s.after calls) = (.ok v, s') →
      v ∈ s'.vars ∧ v.anonymous = true ∧ v.states = l ∧
        ∀ later, runFrom (anonymous l) (s'.after later) = (.ok v, s'.after later)) ∧
    (∀ name v, (s.after calls).lookup name = some v →
      ∀ later, ((s.after calls).after later).lookup name = some v) ∧
    (∀ name l span v s', runFrom (define name l span) (s.after calls) = (.ok v, s') →
      (∀ w ∈ (s.after calls).vars, w.name ≠ name) ∧ v.states = l ∧ s'.lookup name = some v) ∧
    ∀ name l span e s', runFrom (define name l span) (s.after calls) = (.error e, s') →
      ((∃ w ∈ (s.after calls).vars, w.name = name) ∨ l = []) ∧ s' = s.after calls := by
  have htidy := (tidy_create h).after calls
  refine ⟨htidy.named.distinct, htidy.lists, htidy.drawn, fun l v s' hrun => ?_,
    fun name v hv later => (extends_after _ later).find? hv, fun name l span v s' hrun => ?_,
    fun name l span e s' hrun => ?_⟩
  · have hholds := anonymous_ok hrun
    have htidy' := htidy.anonymous l
    rw [hrun] at htidy'
    obtain ⟨hmem, hanon, hstates⟩ := htidy'.holds_iff.mp hholds
    exact ⟨hmem, hanon, hstates, hholds.asked_again⟩
  · obtain ⟨f, hrefused, -⟩ | ⟨s₁, hok, hfree, -, hlookup⟩ := htidy.define_result name l span
    · cases hrefused.symm.trans hrun
    · cases hok.symm.trans hrun
      exact ⟨hfree, rfl, hlookup⟩
  · obtain ⟨f, hrefused, hwhy⟩ | ⟨s₁, hok, -⟩ := htidy.define_result name l span
    · cases hrefused.symm.trans hrun
      exact ⟨hwhy, rfl⟩
    · cases hok.symm.trans hrun

/-- A list gets a variable, whose name is then asked for in vain; the list is declared, and asked
for again. -/
def contestedCalls : List Call :=
  [.anonymous [1, 2], .define "_mszorh" [0] .nowhere, .define "a" [1, 2] .nowhere,
    .anonymous [1, 2]]

/-- The first name that is drawn from seed 0. -/
lemma fresh?_threeStates : ∃ names, threeStates.names.fresh? = some ("_mszorh", names) := by
  have hletters : (threeStates.names.generator.letters? 6).map (·.1) =
      some "mszorh".toList := by cbv
  obtain ⟨⟨cs, generator⟩, hletters, rfl⟩ := Option.map_eq_some_iff.mp hletters
  have hfree : threeStates.names.used.contains "_mszorh" = false := by
    simp [threeStates, NameSource.reserve, NameSource.ofSeed]
  refine ⟨NameSource.reserve { threeStates.names with generator := generator } "_mszorh", ?_⟩
  rw [NameSource.fresh?, show unsignedBound = 18446744073709551615 + 1 from rfl, NameSource.seek,
    hletters]
  exact if_neg (by simpa [NameSource.taken] using hfree)

def withDrawn (names : NameSource) : Scope :=
  { threeStates with
    vars := threeStates.vars.push ⟨"_mszorh", [1, 2], true, .nowhere⟩
    names := names }

lemma after_contestedCalls : ∃ names, threeStates.after contestedCalls =
    (withDrawn names).declare ⟨"a", [1, 2], false, .nowhere⟩ := by
  obtain ⟨names, hfresh⟩ := fresh?_threeStates
  obtain ⟨-, -, htaken⟩ := NameSource.fresh?_ok hfresh
  refine ⟨names, ?_⟩
  have hdrawn : (runFrom (anonymous [1, 2]) threeStates).2 = withDrawn names := by
    rw [runFrom_anonymous]
    change (runFrom (addAnonymous NameSource.fresh? [1, 2]) threeStates).2 = withDrawn names
    rw [addAnonymous, runFrom_bind, runFrom_get]
    dsimp only
    rw [hfresh]
    rfl
  have hrefused : (runFrom (define "_mszorh" [0] .nowhere) (withDrawn names)).2 =
      withDrawn names := by
    rw [runFrom_define, if_neg (by simp [lookup, withDrawn, threeStates])]
    exact congrArg Prod.snd (if_pos ((htaken _).mpr (.inl rfl)))
  have hfree : ¬ (withDrawn names).names.taken "a" = true := by
    rw [withDrawn, htaken]
    simp [threeStates, NameSource.taken, NameSource.reserve, NameSource.ofSeed]
  have hdeclared : (runFrom (define "a" [1, 2] .nowhere) (withDrawn names)).2 =
      (withDrawn names).declare ⟨"a", [1, 2], false, .nowhere⟩ := by
    rw [runFrom_define, if_neg (by simp [lookup, withDrawn, threeStates]), if_neg hfree,
      if_neg (by decide)]
  have hagain : (runFrom (anonymous [1, 2])
      ((withDrawn names).declare ⟨"a", [1, 2], false, .nowhere⟩)).2 =
      (withDrawn names).declare ⟨"a", [1, 2], false, .nowhere⟩ := by
    rw [runFrom_anonymous]
    rfl
  change (runFrom (anonymous [1, 2]) (runFrom (define "a" [1, 2] .nowhere) (runFrom
    (define "_mszorh" [0] .nowhere) (runFrom (anonymous [1, 2]) threeStates).2).2).2).2 = _
  rw [hdrawn, hrefused, hdeclared, hagain]

theorem after_unambiguous_contested : Scope.create 3 (.ofSeed 0) = .ok threeStates ∧
    ((threeStates.after contestedCalls).vars.toList.map (·.name)) =
      ["any", "live", "_mszorh", "a"] ∧
    IsDrawn "_mszorh" ∧
    ∀ later, ((threeStates.after contestedCalls).after later).lookup "a" =
      some ⟨"a", [1, 2], false, .nowhere⟩ := by
  have hcreate : Scope.create 3 (.ofSeed 0) = .ok threeStates := rfl
  obtain ⟨names, hafter⟩ := after_contestedCalls
  obtain ⟨-, -, hdrawn, -, hlookup, -⟩ := after_unambiguous hcreate contestedCalls
  rw [hafter] at hdrawn hlookup ⊢
  refine ⟨hcreate, rfl, ?_, hlookup "a" _ rfl⟩
  refine hdrawn ⟨"_mszorh", [1, 2], true, .nowhere⟩ ?_ rfl
  simp [withDrawn, declare]

end RuleTable.Scope
