import RuleTable.Proofs.Faithfulness

/-!
The form of a compiled section.

Every line has a field for each slot of a transition. A field is the number of a state, or a name
with a suffix that is declared exactly once, and what is declared are states of the section. Only
where there is a single state, and `live` is written although nothing is alive, a variable without
states can be declared.
-/

namespace RuleTable

open SectionM

/-- The section can be read line by line and field by field. -/
structure CompiledSection.WellFormed (c : CompiledSection) : Prop where
  width : ∀ line ∈ c.lines, line.fields.length = c.neighborhood.size + 2
  fields : ∀ line ∈ c.lines, ∀ field ∈ line.fields,
    (∃ x : ℤ, 0 ≤ x ∧ x < c.stateCount ∧ field = toString x) ∨
      (∃ (name : String) (k : ℕ), field = s!"{name}.{k}") ∧
        ∃! i : ℕ, ∃ states : StateList, c.vars[i]? = some s!"var {field} = {states.text}"
  vars : ∀ var ∈ c.vars, ∃ (name : String) (k : ℕ) (states : StateList),
    var = s!"var {name}.{k} = {states.text}" ∧ states.Below c.stateCount

/-! ### What is declared is used -/

lemma Suffixes.exists_free_of_count_lt {s : Suffixes} {row : Row} {name : String}
    (h : s.count name < (s.after row).count name) : ∃ v o, .free v o ∈ row ∧ v.name = name := by
  induction row generalizing s with
  | nil => exact absurd h (lt_irrefl _)
  | cons u row ih =>
    cases u with
    | state x drawn o =>
      obtain ⟨v, o', hmem, hname⟩ := ih h
      exact ⟨v, o', List.mem_cons_of_mem _ hmem, hname⟩
    | free w o =>
      by_cases hw : w.name = name
      · exact ⟨w, o, List.mem_cons_self, hw⟩
      have hsame : (s.assign w o).2.count name = s.count name := by
        cases hf : s.find? o with
        | some k => rw [assign_of_some hf]
        | none => rw [(assign_of_none hf).2.2, if_neg (Ne.symm hw)]
      obtain ⟨v, o', hmem, hname⟩ := ih (s := (s.assign w o).2) (hsame.symm ▸ h)
      exact ⟨v, o', List.mem_cons_of_mem _ hmem, hname⟩

/-- A variable of which there are copies stands in a row. -/
lemma Listing.Lists.exists_free {l : Listing} {rows : List Row} (h : l.Lists rows) {name : String}
    (hcopies : 0 < l.copies.getD name 0) : ∃ row ∈ rows,
    ∃ v o, .free v o ∈ row ∧ v.name = name := by
  by_contra hnone
  push Not at hnone
  refine absurd ((h.copies name 0).mpr fun row hrow => ?_) (by omega)
  by_contra hneed
  obtain ⟨v, o, hmem, hname⟩ := Suffixes.exists_free_of_count_lt (s := {}) (not_le.mp hneed)
  exact hnone row hrow v o hmem hname

/-! ### Nothing is declared twice -/

namespace Listing

/-- The declarations in the order of the variables, each with whether its variable has no name. -/
def copiesOf (l : Listing) (v : Variable) : List (Bool × String) :=
  (List.range (l.copies.getD v.name 0)).map fun k =>
    (v.anonymous, s!"var {v.name}.{k} = {v.states.text}")

lemma mem_copiesOf {l : Listing} {v : Variable} {text : String}
    (h : text ∈ (l.copiesOf v).map Prod.snd) :
    ∃ k : ℕ, text = s!"var {v.name}.{k} = {v.states.text}" := by
  obtain ⟨p, hp, rfl⟩ := List.mem_map.mp h
  obtain ⟨k, -, rfl⟩ := List.mem_map.mp hp
  exact ⟨k, rfl⟩

lemma nodup_declarations (l : Listing) {scope : Scope}
    (h : (scope.vars.toList.map (·.name)).Nodup) : (l.declarations scope).Nodup := by
  have hperm : (l.declarations scope).Perm
      (scope.vars.toList.flatMap fun v => (l.copiesOf v).map Prod.snd) := by
    rw [← List.map_flatMap]
    unfold declarations
    rw [← List.map_append]
    refine List.Perm.map _ (List.perm_append_comm.trans ?_)
    exact List.filter_append_perm _ _
  rw [hperm.nodup_iff, List.nodup_flatMap]
  constructor
  · intro v _
    rw [copiesOf, List.map_map]
    refine List.nodup_range.map fun k k' he => ?_
    exact (copy_inj he).1.2
  · refine (List.pairwise_map.mp h).imp fun {v w} hvw text hv hw => hvw ?_
    obtain ⟨k, rfl⟩ := mem_copiesOf hv
    obtain ⟨k', he⟩ := mem_copiesOf hw
    exact (copy_inj he).1.1

end Listing

/-! ### The form of what is written -/

namespace Table

variable {pr : Proviso} {s : SectionState} {c : CompiledSection} {r : Registry} {scope : Scope}
  {parts : List (List Row)} {l : Listing}

/-- What is declared holds states of the section, and at least one unless `live` may be empty. -/
lemma Writes.filled (hs : s.Sound pr) (h : Writes s c r scope parts l) {v : Variable}
    (hv : v ∈ scope.vars) (hcopies : 0 < l.copies.getD v.name 0) :
    scope.Filled (s.stateCount = 1 → pr.mute) v.states := by
  obtain ⟨row, hrow, w, o, hfree, hname⟩ := h.lists.exists_free hcopies
  have hwithin := (h.fits hs hrow).within.variable hfree
  obtain rfl := (hs.opens h.opens).1.named.apart w hwithin.mem v hv hname
  exact hwithin.filled

/-- **A field of a line** is a state of the section or is declared exactly once. -/
lemma Writes.field_form (hs : s.Sound pr) (h : Writes s c r scope parts l) {row : Row}
    (hrow : row ∈ parts.flatten) {u : Value} (hu : u ∈ row) :
    (∃ x : ℤ, 0 ≤ x ∧ x < c.stateCount ∧ u.field row.suffix = toString x) ∨
      (∃ (name : String) (k : ℕ), u.field row.suffix = s!"{name}.{k}") ∧
        ∃! i : ℕ, ∃ states : StateList,
          c.vars[i]? = some s!"var {u.field row.suffix} = {states.text}" := by
  obtain ⟨hscope, hcount⟩ := hs.opens h.opens
  have hfits := h.fits hs hrow
  cases u with
  | state x drawn o =>
    obtain ⟨hlow, hhigh⟩ := (hfits.within _ hu).below
    rw [hcount, ← h.stateCount] at hhigh
    exact .inl ⟨x, hlow, hhigh, rfl⟩
  | free v o =>
    refine .inr ⟨⟨v.name, row.suffix o, rfl⟩, ?_⟩
    have hmem := (hfits.within.variable hu).mem
    have hdeclares : ∀ states, c.Declares s!"{v.name}.{row.suffix o}" states ↔
        states = v.states := by
      intro states
      rw [Listing.declaresCopies h.vars]
      constructor
      · rintro ⟨w, hw, k, -, hfield, rfl⟩
        rw [hscope.named.apart v hmem w hw (field_inj hfield).1]
      · rintro rfl
        have hneed := (h.lists.copies v.name _).mp le_rfl row hrow
        exact ⟨v, hmem, _, (hfits.proper.suffix hu hu rfl).1.trans_le hneed, rfl, rfl⟩
    obtain ⟨i, hi⟩ := List.mem_iff_getElem?.mp ((hdeclares v.states).mpr rfl)
    refine ⟨i, ⟨v.states, hi⟩, ?_⟩
    rintro j ⟨states, hj⟩
    obtain rfl := (hdeclares states).mp (List.mem_of_getElem? hj)
    have hnodup : c.vars.Nodup := h.vars ▸ l.nodup_declarations hscope.named.distinct
    exact (List.getElem?_inj (List.getElem?_eq_some_iff.mp hj).1 hnodup).mp (hj.trans hi.symm)

/-- **A written section is well formed.** -/
lemma Writes.wellFormed (hs : s.Sound pr) (h : Writes s c r scope parts l)
    (hcomma : ∀ v ∈ scope.vars, ',' ∉ v.name.toList) : c.WellFormed := by
  have hrow : ∀ line ∈ c.lines, ∃ row ∈ parts.flatten,
      line.fields = row.map (Value.field row.suffix) := by
    intro line hline
    rw [h.lines] at hline
    obtain ⟨row, hrow, htext⟩ :=
      (h.lists.texts line.text).mp ⟨line, Array.mem_toList_iff.mp hline, rfl⟩
    have hfits := h.fits hs hrow
    refine ⟨row, hrow, fields_of_text hcomma hfits.within ?_ htext.symm⟩
    rw [← List.length_pos_iff, hfits.length]
    omega
  refine ⟨fun line hline => ?_, fun line hline field hfield => ?_, fun var hvar => ?_⟩
  · obtain ⟨row, hrow, hfields⟩ := hrow line hline
    rw [hfields, List.length_map, (h.fits hs hrow).length]
  · obtain ⟨row, hrow, hfields⟩ := hrow line hline
    rw [hfields] at hfield
    obtain ⟨u, hu, rfl⟩ := List.mem_map.mp hfield
    exact h.field_form hs hrow hu
  · rw [h.vars] at hvar
    obtain ⟨v, hv, k, hk, rfl⟩ := (l.mem_declarations scope var).mp hvar
    refine ⟨v.name, k, v.states, rfl, ?_⟩
    rw [h.stateCount, ← (hs.opens h.opens).2]
    exact (h.filled hs hv (Nat.zero_lt_of_lt hk)).below

/-- **A compiled section is well formed**, if no comma stands in a declared name. A variable without
states is declared only where there is a single state and a transition asks for live ones. -/
theorem compile_wellFormed {session session' : Session} {t : Table} {seed : UInt64}
    (hr : session.registry.Reachable)
    (hnames : ∀ name value span, .var name value span ∈ t.statements → ',' ∉ name.toList)
    (h : runFrom (t.compile seed) session = (.ok (.ok c), session')) :
    c.WellFormed ∧ ∀ field, c.Declares field [] → c.stateCount = 1 ∧
      ∃ tr, .transition tr ∈ t.statements ∧ ∃ e ∈ tr.exprs, e.Mentions "live" := by
  let mute : Prop := ∀ tr, .transition tr ∈ t.statements → ∀ e ∈ tr.exprs, ¬ e.Mentions "live"
  have hmeets : ∀ st ∈ t.statements, st.Meets ⟨False, mute, fun name => ',' ∉ name.toList⟩ := by
    intro st hst
    cases st with
    | directive name value symmetry span => exact False.elim
    | var name value span => exact .inr (hnames _ _ _ hst)
    | transition tr => exact fun hmute => hmute tr hst
  obtain ⟨s, r, scope, parts, l, hs, -, hwrites⟩ := compile_writes hr hmeets h
  have hscope := (hs.opens hwrites.opens).1
  refine ⟨hwrites.wellFormed hs fun v hv => ?_, fun field hfield => ?_⟩
  · exact hscope.named.notMem (by decide) (fun name hname => hname) hv
  · obtain ⟨v, hv, k, hk, -, hnil⟩ := (Listing.declaresCopies hwrites.vars _ _).mp hfield
    have hfilled := (hwrites.filled hs hv (Nat.zero_lt_of_lt hk)).ne_nil
    have hseen : ¬ (s.stateCount = 1 → mute) := fun hfull => hfilled hfull hnil.symm
    rw [hwrites.stateCount]
    simpa [mute] using hseen

theorem compile_wellFormed_growing : ∃ c session',
    runFrom (growingAround.compile 0) {} = (.ok (.ok c), session') ∧ c.WellFormed ∧
      ∀ field, ¬ c.Declares field [] := by
  have hreach : (Session.registry {}).Reachable := .start
  obtain ⟨-, c, session', -, -, hrun⟩ := compile_growingAround
  have hnames : ∀ name x span, .var name x span ∈ growingAround.statements →
      ',' ∉ name.toList := by
    intro name x span hvar
    unfold growingAround at hvar
    obtain rfl := name_of_growing hvar
    simp
  obtain ⟨hform, hempty⟩ := compile_wellFormed hreach hnames hrun
  refine ⟨c, session', hrun, hform, fun field hfield => ?_⟩
  obtain ⟨-, tr, htr, e, he, span, hlive⟩ := hempty field hfield
  obtain rfl : tr = growth := by simpa [growingAround, growing] using htr
  have hnodes : ∀ e ∈ growth.exprs, ∀ span, .name "live" span ∉ e.nodes := by
    simp [growth, Transition.exprs, Expr.nodes]
  exact hnodes e he span hlive

end Table

end RuleTable
