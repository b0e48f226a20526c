import RuleTable.Interchange.File
import RuleTable.Proofs.Running

/-!
What the statements of a file are about.

A record of a file may name a directive, a variable and a transition, any of them or all. It is read
as one statement, about the first that it names. So a file that is read comes to one table for each
section and one statement for each record, in their order, and what the statements are about is all
that the file declares exactly if no record names more than one thing.

This depends on the tree of the file only, so the reader that finds the tree is arbitrary. Records
are counted as they are decoded: a single value stands for a list of one, and a list of mappings in
place of a mapping for all their pairs.
-/

namespace RuleTable

open Text Yaml

inductive Subject
  | directive (name : String)
  | var (name : String)
  | transition
  deriving DecidableEq, Repr

def Statement.subject : Statement → Subject
  | .directive name _ _ _ => .directive name
  | .var name _ _ => .var name
  | .transition _ => .transition

namespace Interchange

def nameIn (d : Datum) : List String := (text? d).toList.filter (· ≠ "")

def transitionIn : Datum → List Subject
  | .null => []
  | _ => [.transition]

def Pairs.subjects (pairs : Pairs) : List Subject :=
  (nameIn (pairs.get "directive")).map .directive ++ (nameIn (pairs.get "var")).map .var ++
    transitionIn (pairs.get "transition")

/-! ### One record -/

variable {place : Span} {pairs : Pairs} {st : Statement} {f : StatementFields}

lemma nameIn_eq {d : Datum} {name : String} (h : text? d = some name) :
    nameIn d = if name = "" then [] else [name] := by
  rw [nameIn, h, Option.toList_some, List.filter_singleton]
  by_cases hname : name = "" <;> simp [hname]

lemma transitionIn_eq {span : Span} {d : Datum} {t : Option TransitionFields}
    (h : optionalTransition? span d = some t) :
    transitionIn d = if t.isSome then [.transition] else [] := by
  unfold optionalTransition? at h
  split at h
  · cases h
    rfl
  · next hne =>
    obtain ⟨t, -, rfl⟩ := Option.map_eq_some_iff.mp h
    rw [transitionIn]
    · rfl
    · exact hne

/-- Where the fields of a statement come from. -/
lemma statementFields?_ok (h : statementFields? place pairs = some f) :
    span? place (pairs.get "span") = some f.span ∧
    text? (pairs.get "directive") = some f.directive ∧
      f.value = pairs.get "value" ∧ text? (pairs.get "var") = some f.var ∧
      optionalTransition? f.span (pairs.get "transition") = some f.transition := by
  unfold statementFields? at h
  split at h
  · cases h
  obtain ⟨span, hspan, h⟩ := Option.bind_eq_some_iff.mp h
  obtain ⟨directive, hdirective, h⟩ := Option.bind_eq_some_iff.mp h
  obtain ⟨symmetry, -, h⟩ := Option.bind_eq_some_iff.mp h
  obtain ⟨var, hvar, h⟩ := Option.bind_eq_some_iff.mp h
  obtain ⟨transition, htransition, h⟩ := Option.bind_eq_some_iff.mp h
  cases h
  exact ⟨hspan, hdirective, rfl, hvar, htransition⟩

/-- A record that is read is a directive if it names one, else a variable if it names one, else a
transition. -/
lemma statement_cases (h : statement place pairs = .ok st) :
    ∃ f, statementFields? place pairs = some f ∧
    (f.directive ≠ "" ∧ st = .directive f.directive (directiveText f.value) f.symmetry f.span ∨
      f.directive = "" ∧ f.var ≠ "" ∧
        (∃ e, expr f.span f.value = .ok e ∧ st = .var f.var e f.span) ∨
      f.directive = "" ∧ f.var = "" ∧
        ∃ t tr, f.transition = some t ∧ transition f.span t = .ok tr ∧ st = .transition tr) := by
  unfold statement at h
  split at h
  · cases h
  next f hf =>
  refine ⟨f, hf, ?_⟩
  split at h
  · next hdirective =>
    cases h
    exact .inl ⟨hdirective, rfl⟩
  next hdirective =>
  replace hdirective : f.directive = "" := by simpa using hdirective
  split at h
  · next hvar =>
    obtain ⟨e, he, h⟩ := outcome_bind_ok.mp h
    cases h
    exact .inr (.inl ⟨hdirective, hvar, e, he, rfl⟩)
  next hvar =>
  split at h
  · next t ht =>
    cases htr : transition f.span t with
    | error failure =>
      rw [htr] at h
      cases h
    | ok tr =>
      rw [htr] at h
      cases h
      exact .inr (.inr ⟨hdirective, by simpa using hvar, t, tr, ht, htr, rfl⟩)
  · cases h

/-- **A record** is read as a statement about the first thing that it declares. -/
lemma head?_subjects (h : statement place pairs = .ok st) :
    pairs.subjects.head? = some st.subject := by
  obtain ⟨f, hf, hcases⟩ := statement_cases h
  obtain ⟨-, hdirective, -, hvar, htransition⟩ := statementFields?_ok hf
  rw [Pairs.subjects, nameIn_eq hdirective, nameIn_eq hvar, transitionIn_eq htransition]
  obtain ⟨hne, rfl⟩ | ⟨hnil, hne, e, -, rfl⟩ | ⟨hnil, hnil', t, tr, ht, -, rfl⟩ := hcases
  · rw [if_neg hne]
    rfl
  · rw [if_pos hnil, if_neg hne]
    rfl
  · rw [if_pos hnil, if_pos hnil', ht]
    rfl

/-! ### All records -/

/-- The record is read as the statement. -/
def ReadAs (pairs : Pairs) (st : Statement) : Prop := ∃ place, statement place pairs = .ok st

lemma statements_ok {spans : List Span} {j : ℕ} {records : List Pairs} {sts : List Statement}
    (h : statements spans j records = .ok sts) : List.Forall₂ ReadAs records sts := by
  induction records generalizing j sts with
  | nil =>
    cases h
    exact .nil
  | cons pairs records ih =>
    obtain ⟨st, hst, h⟩ := outcome_bind_ok.mp h
    obtain ⟨rest, hrest, h⟩ := outcome_bind_ok.mp h
    cases h
    exact .cons ⟨_, hst⟩ (ih hrest)

lemma tables_ok {spans : List (List Span)} {i : ℕ} {sections : List SectionFields}
    {tables : List Table} (h : Interchange.tables spans i sections = .ok tables) :
    List.Forall₂ (fun sec t => t.name = sec.name ∧ List.Forall₂ ReadAs sec.statements t.statements)
      sections tables := by
  induction sections generalizing i tables with
  | nil =>
    cases h
    exact .nil
  | cons sec sections ih =>
    rw [Interchange.tables] at h
    split at h
    · cases h
    next sts hsts =>
    obtain ⟨rest, hrest, h⟩ := outcome_bind_ok.mp h
    cases h
    exact .cons ⟨rfl, statements_ok hsts⟩ (ih hrest)

variable {read : String → Option (Option Node)} {source : String}

/-- The sections of a text, before their statements are looked at. -/
def sectionsOf? (read : String → Option (Option Node)) (source : String) :
    Option (List SectionFields) := (read source >>= top?) >>= sections?

/-- A file that is read comes to one table for each section, and one statement for each record. -/
lemma parseWith_ok {tables : List Table} (h : parseWith read source = .ok tables) :
    ∃ sections, sectionsOf? read source = some sections ∧
      List.Forall₂ (fun sec t => t.name = sec.name ∧
        List.Forall₂ ReadAs sec.statements t.statements)
        sections tables := by
  unfold parseWith at h
  dsimp only at h
  split at h
  · cases h
  next root hroot =>
  split at h
  · cases h
  next top htop =>
  split at h
  · cases h
  next sections hsections =>
  refine ⟨sections, ?_, tables_ok h⟩
  simp [sectionsOf?, hroot, htop, hsections]

lemma parseWith_eq {root : Option Node} {sections : List SectionFields}
    (hread : read source = some root) (hsections : (top? root >>= sections?) = some sections) :
    parseWith read source = tables (places root) 0 sections := by
  obtain ⟨top, htop, hsections⟩ := Option.bind_eq_some_iff.mp hsections
  unfold parseWith
  dsimp only
  rw [hread]
  dsimp only
  rw [htop]
  dsimp only
  rw [hsections]

/-- Every statement of a file is read from a record. -/
lemma exists_readAs {tables : List Table} (h : parseWith read source = .ok tables) {t : Table}
    (ht : t ∈ tables) (hst : st ∈ t.statements) : ∃ pairs, ReadAs pairs st := by
  obtain ⟨sections, -, hsections⟩ := parseWith_ok h
  obtain ⟨i, rfl⟩ := List.mem_iff_get.mp ht
  have hread := (hsections.get (i.2.trans_eq hsections.length_eq.symm) i.2).2
  obtain ⟨j, rfl⟩ := List.mem_iff_get.mp hst
  exact ⟨_, hread.get (j.2.trans_eq hread.length_eq.symm) j.2⟩

/-! ### What the records declare -/

/-- The statements are about the first things that the records declare, one for one. -/
def Leads (records : List Pairs) (sts : List Statement) : Prop :=
  List.Forall₂ (fun (pairs : Pairs) st => pairs.subjects.head? = some st.subject) records sts

lemma leads_of_readAs {records : List Pairs} {sts : List Statement}
    (h : List.Forall₂ ReadAs records sts) : Leads records sts := by
  refine h.imp fun pairs st hread => ?_
  obtain ⟨place, hread⟩ := hread
  exact head?_subjects hread

lemma Leads.length_le {records : List Pairs} {sts : List Statement} (h : Leads records sts) :
    sts.length ≤ (records.flatMap Pairs.subjects).length := by
  induction h with
  | nil => simp
  | cons hhead _ ih =>
    have hpos := List.length_pos_of_mem (List.mem_of_head? hhead)
    simp only [List.flatMap_cons, List.length_append, List.length_cons]
    omega

/-- What the statements of a section are about is all that its records declare, exactly if each of
them declares one thing. -/
lemma Leads.subjects_eq_iff {records : List Pairs} {sts : List Statement} (h : Leads records sts) :
    sts.map (·.subject) = records.flatMap Pairs.subjects ↔
      ∀ pairs ∈ records, pairs.subjects.length = 1 := by
  induction h with
  | nil => simp
  | @cons pairs st records sts hhead hrest ih =>
    obtain ⟨rest, hsubjects⟩ := List.head?_eq_some_iff.mp hhead
    rw [List.map_cons, List.flatMap_cons, hsubjects, List.cons_append, List.cons_inj_right,
      List.forall_mem_cons, hsubjects, List.length_cons]
    constructor
    · intro he
      have hlength := congrArg List.length he
      have hle := Leads.length_le hrest
      rw [List.length_map, List.length_append] at hlength
      obtain rfl : rest = [] := List.length_eq_zero_iff.mp (by omega)
      exact ⟨rfl, ih.mp he⟩
    · rintro ⟨hone, hall⟩
      obtain rfl : rest = [] := List.length_eq_zero_iff.mp (by omega)
      exact ih.mpr hall

lemma subjects_eq_iff_of_leads {sections : List SectionFields} {tables : List Table}
    (h : List.Forall₂ (fun sec t => t.name = sec.name ∧ Leads sec.statements t.statements)
      sections tables) :
    (tables.map fun t => t.statements.map (·.subject)) =
        (sections.map fun sec => sec.statements.flatMap Pairs.subjects) ↔
      ∀ sec ∈ sections, ∀ pairs ∈ sec.statements, pairs.subjects.length = 1 := by
  induction h with
  | nil => simp
  | cons hfirst _ ih =>
    rw [List.map_cons, List.map_cons, List.cons.injEq, hfirst.2.subjects_eq_iff, ih,
      List.forall_mem_cons]

/-- **A file that is read**, by whatever finds its tree, comes to one table for each section, of the
same name, with one statement for each record, in order. Every record declares something, and the
statement is about the first thing that it declares. All that the file declares is there exactly if
no record declares more than one thing. -/
theorem parse_keeps_first_subjects {tables : List Table}
    (h : parseWith read source = .ok tables) : ∃ sections, sectionsOf? read source = some sections ∧
      List.Forall₂ (fun sec t => t.name = sec.name ∧
        List.Forall₂ (fun (pairs : Pairs) st => pairs.subjects.head? = some st.subject)
          sec.statements t.statements) sections tables ∧
      ((tables.map fun t => t.statements.map (·.subject)) =
          (sections.map fun sec => sec.statements.flatMap Pairs.subjects) ↔
        ∀ sec ∈ sections, ∀ pairs ∈ sec.statements, pairs.subjects.length = 1) := by
  obtain ⟨sections, hsections, hread⟩ := parseWith_ok h
  have hleads := hread.imp fun _ _ hsec => And.imp_right leads_of_readAs hsec
  exact ⟨sections, hsections, hleads, subjects_eq_iff_of_leads hleads⟩

/-- A file with a record that declares a number of states and a variable. -/
def crowded : String :=
  "\"sections\":\n- \"statements\":\n  - \"var\": \"a\"\n    \"directive\": \"n_states\"\n"

def crowdedTable : Table := ⟨"", [.directive "n_states" "" none ⟨3, 5, 5⟩]⟩

def crowdedRecord : Pairs := [(.text "var", .text "a"), (.text "directive", .text "n_states")]

set_option maxRecDepth 2000 in
lemma ofText?_crowded : Node.ofText? crowded = some (some (.mapping [(.scalar "sections" false {},
    .sequence [.mapping [(.scalar "statements" false ⟨14, 1, 2⟩,
      .sequence [.mapping [(.scalar "var" false ⟨32, 2, 4⟩, .scalar "a" false ⟨39, 2, 11⟩),
        (.scalar "directive" false ⟨47, 3, 4⟩, .scalar "n_states" false ⟨60, 3, 17⟩)]
        ⟨32, 2, 4⟩] ⟨30, 2, 2⟩)] ⟨14, 1, 2⟩] ⟨12, 1, 0⟩)] {})) := by
  cbv

lemma parse_crowded : parse crowded = .ok [crowdedTable] := by
  unfold parse parseWith
  rw [ofText?_crowded]
  cbv

lemma sectionsOf?_crowded : sectionsOf? Node.ofText? crowded = some [⟨"", [crowdedRecord]⟩] := by
  unfold sectionsOf?
  rw [ofText?_crowded]
  cbv

theorem parse_keeps_first_subjects_crowded : parse crowded = .ok [crowdedTable] ∧
    crowdedRecord.subjects = [.directive "n_states", .var "a"] ∧
    (∃ sections, sectionsOf? Node.ofText? crowded = some sections ∧
      [crowdedTable.statements.map (·.subject)] ≠
        sections.map fun sec => sec.statements.flatMap Pairs.subjects) := by
  have hsubjects : crowdedRecord.subjects = [.directive "n_states", .var "a"] := by cbv
  obtain ⟨sections, hsections, -, hall⟩ := parse_keeps_first_subjects parse_crowded
  refine ⟨parse_crowded, hsubjects, sections, hsections, fun he => ?_⟩
  obtain rfl := Option.some.inj (hsections.symm.trans sectionsOf?_crowded)
  have hone := hall.mp he ⟨"", [crowdedRecord]⟩ List.mem_cons_self crowdedRecord List.mem_cons_self
  rw [hsubjects] at hone
  cases hone

end Interchange

end RuleTable
