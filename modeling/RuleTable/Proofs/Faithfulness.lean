import RuleTable.Proofs.Verdicts

/-!
A compiled table means what was written.

The transitions of a table, each laid out when its turn comes, cover tuples under the symmetries
they were declared under. The compiled section covers tuples by its lines, under the one symmetry it
is written under. If no symmetry is declared as a union, the two are the same: the choice of a
class, the reduction to it, the naming of variables and the removal of repeated lines lose nothing
and add nothing.
-/

namespace RuleTable

open SectionM Relabeling

/-- A line of the section stands for the tuple, after the section's symmetry has rearranged the
napkin. -/
def CompiledSection.Covers (c : CompiledSection) (center : ℤ)
    (napkin : List ℤ) (result : ℤ) : Prop :=
  ∃ line ∈ c.lines, ∃ q ∈ c.symmetry.relabelings, ∃ neighbors, napkin = q.apply neighbors ∧
    c.LineMatches line (center :: neighbors ++ [result])

/-- The name holds none of the marks that stand between names. Letters, digits and underscores are
not among them. -/
def Plain (name : String) : Prop := ∀ c ∈ [',', '|', '\x1f'], c ∉ name.toList

instance (name : String) : Decidable (Plain name) := inferInstanceAs (Decidable (∀ c ∈ _, _))

/-! ### Covering by several rows -/

section Covers

variable {t : Symmetry} {center result : ℤ} {napkin : List ℤ}

lemma Symmetry.covers_append {rows rows' : List Row} :
    t.Covers (rows ++ rows') center napkin result ↔
    t.Covers rows center napkin result ∨ t.Covers rows' center napkin result := by
  simp only [Symmetry.Covers, List.mem_append, or_and_right, exists_or]

lemma Symmetry.covers_flatten {parts : List (List Row)} :
    t.Covers parts.flatten center napkin result ↔
      ∃ part ∈ parts, t.Covers part center napkin result := by
  simp only [Symmetry.Covers, List.mem_flatten]
  constructor
  · rintro ⟨row, ⟨part, hpart, hrow⟩, h⟩
    exact ⟨part, hpart, row, hrow, h⟩
  · rintro ⟨part, hpart, row, hrow, h⟩
    exact ⟨row, ⟨part, hpart, hrow⟩, h⟩

end Covers

/-! ### Lines and rows -/

namespace Table

variable {pr : Proviso} {s : SectionState} {c : CompiledSection} {r : Registry} {scope : Scope}
  {parts : List (List Row)} {l : Listing} {center result : ℤ} {napkin : List ℤ}

lemma Writes.exists_entry (h : Writes s c r scope parts l)
    {part : List Row} (hpart : part ∈ parts) :
    ∃ e ∈ s.entries, Reduces c.symmetry e part := by
  obtain ⟨hlen, hget⟩ := List.forall₂_iff_get.mp h.reduces
  obtain ⟨i, hi, rfl⟩ := List.getElem_of_mem hpart
  exact ⟨_, Array.mem_toList_iff.mp (List.get_mem _ ⟨i, hlen ▸ hi⟩), hget i (hlen ▸ hi) hi⟩

lemma Writes.exists_part (h : Writes s c r scope parts l) {e : Entry} (he : e ∈ s.entries) :
    ∃ part ∈ parts, Reduces c.symmetry e part := by
  obtain ⟨hlen, hget⟩ := List.forall₂_iff_get.mp h.reduces
  obtain ⟨i, hi, rfl⟩ := List.getElem_of_mem (Array.mem_toList_iff.mpr he)
  exact ⟨_, List.get_mem _ ⟨i, hlen ▸ hi⟩, hget i hi (hlen ▸ hi)⟩

/-- Every row that is written fits. -/
lemma Writes.fits (hs : s.Sound pr) (h : Writes s c r scope parts l) {row : Row}
    (hrow : row ∈ parts.flatten) :
    row.Fits c.neighborhood (s.stateCount = 1 → pr.mute) scope := by
  obtain ⟨part, hpart, hrow⟩ := List.mem_flatten.mp hrow
  obtain ⟨e, he, hreduces⟩ := h.exists_entry hpart
  obtain ⟨nb, scope', hnb, -, hsound⟩ := hs.entries e he
  have hfits := hreduces.fits (h.common.prepared e he).fits (entry_fits hs h.opens he) row hrow
  rwa [h.neighborhood, hnb, Option.getD_some, ← hsound.neighborhood]

/-- **Lines and rows.** The section covers by its lines what the written rows cover. -/
lemma Writes.covers_rows (hs : s.Sound pr) (h : Writes s c r scope parts l)
    (hcomma : ∀ v ∈ scope.vars, ',' ∉ v.name.toList) : c.Covers center napkin result ↔
      c.symmetry.Covers parts.flatten center napkin result := by
  have hnamed := (hs.opens h.opens).1.named
  have hmatch : ∀ row ∈ parts.flatten, ∀ line : Line, line.text = row.text → ∀ tuple,
      c.LineMatches line tuple ↔ row.Matches tuple := by
    intro row hrow line htext tuple
    have hfits := h.fits hs hrow
    refine lineMatches_iff hnamed hcomma (Listing.declaresCopies h.vars)
      hfits.proper hfits.within ?_
      (fun name => (h.lists.copies name _).mp le_rfl row hrow) htext
    rw [← List.length_pos_iff, hfits.length]
    omega
  constructor
  · rintro ⟨line, hline, q, hq, neighbors, hnap, hm⟩
    rw [h.lines] at hline
    obtain ⟨row, hrow, htext⟩ :=
      (h.lists.texts line.text).mp ⟨line, Array.mem_toList_iff.mp hline, rfl⟩
    exact ⟨row, hrow, q, hq, neighbors, hnap, (hmatch row hrow line htext.symm _).mp hm⟩
  · rintro ⟨row, hrow, q, hq, neighbors, hnap, hm⟩
    obtain ⟨line, hline, htext⟩ := (h.lists.texts row.text).mpr ⟨row, hrow, rfl⟩
    refine ⟨line, ?_, q, hq, neighbors, hnap, (hmatch row hrow line htext _).mpr hm⟩
    rw [h.lines]
    exact Array.mem_toList_iff.mpr hline

/-- **An entry and what it is reduced to** cover the same, if its symmetry is a group. -/
lemma Reduces.covers_iff {target : Symmetry} {e : Entry} {part : List Row} {ok : String → Prop}
    {full : Prop} (hprep : e.rule.Prepared target r)
    (hcontained : ∀ p ∈ target.relabelings, p ∈ e.rule.symmetry.relabelings)
    (hclosed : e.rule.symmetry.presentation.Closed) (hscope : scope.WellNamed ok)
    (hmarks : ∀ v ∈ scope.vars, Rule.Unmarked v.name)
    (hrows : ∀ row ∈ e.rows ++ e.auxiliaryRows, row.Fits e.rule.neighborhood full scope)
    (h : Reduces target e part) : target.Covers part center napkin result ↔
      e.rule.symmetry.Covers (e.rows ++ e.auxiliaryRows) center napkin result := by
  obtain ⟨rows, auxiliaryRows, ha, hb, rfl⟩ := h
  have hgroup := Symmetry.isGroup hprep.fits.declared hclosed
  rw [hprep.fits.declared_neighborhood] at hgroup
  have hone : identity e.rule.neighborhood.size ∈ target.relabelings := by
    rw [← hprep.fits.written_neighborhood]
    exact Symmetry.identity_mem hprep.fits.written
  have hpart : ∀ {rows out : List Row}, (∀ row ∈ rows, row ∈ e.rows ++ e.auxiliaryRows) →
      Comes (e.rule.reduce target rows) out →
        (target.Covers out center napkin result ↔
          e.rule.symmetry.Covers rows center napkin result) := by
    intro rows out hsub hout
    have hfits : ∀ row ∈ rows, row.length = e.rule.neighborhood.size + 2 ∧ row.Within full scope :=
      fun row hrow => ⟨(hrows row (hsub row hrow)).length, (hrows row (hsub row hrow)).within⟩
    rw [Rule.reduce_covers hprep hscope hmarks hfits hout]
    exact Rule.covers_iff_of_group hgroup hcontained hone fun row hrow => (hfits row hrow).1
  rw [Symmetry.covers_append, Symmetry.covers_append,
    hpart (fun row hrow => List.mem_append_left _ hrow) ha,
    hpart (fun row hrow => List.mem_append_right _ hrow) hb]

/-- **The written section and its entries** cover the same, if all their symmetries are groups. -/
lemma Writes.covers_entries (hs : s.Sound pr) (hclosed : pr.uncombined)
    (hplain : ∀ name, pr.spelled name → Plain name) (h : Writes s c r scope parts l) :
    c.Covers center napkin result ↔ ∃ e ∈ s.entries,
      e.rule.symmetry.Covers (e.rows ++ e.auxiliaryRows) center napkin result := by
  have hnamed := (hs.opens h.opens).1.named
  have hspelled : ∀ v ∈ scope.vars, Plain v.name := by
    intro v hv x hx
    have hmark : ∀ x ∈ [',', '|', '\x1f'], IsWordChar x = false := by simp [IsWordChar]
    exact hnamed.notMem (hmark x hx) (fun name hname => hplain name hname x hx) hv
  have hmarks : ∀ v ∈ scope.vars, Rule.Unmarked v.name := fun v hv =>
    ⟨hspelled v hv _ (by decide), hspelled v hv _ (by decide)⟩
  have hentry : ∀ e ∈ s.entries, ∀ part, Reduces c.symmetry e part →
      (c.symmetry.Covers part center napkin result ↔
        e.rule.symmetry.Covers (e.rows ++ e.auxiliaryRows) center napkin result) := by
    intro e he part hpart
    obtain ⟨nb, scope', -, -, hsound⟩ := hs.entries e he
    exact hpart.covers_iff (h.common.prepared e he) (h.common.contained e he)
      (hsound.symmetry.2.2 hclosed) hnamed hmarks (entry_fits hs h.opens he)
  rw [h.covers_rows hs fun v hv => hspelled v hv _ (by decide), Symmetry.covers_flatten]
  constructor
  · rintro ⟨part, hpart, hcovers⟩
    obtain ⟨e, he, hreduces⟩ := h.exists_entry hpart
    exact ⟨e, he, (hentry e he part hreduces).mp hcovers⟩
  · rintro ⟨e, he, hcovers⟩
    obtain ⟨part, hpart, hreduces⟩ := h.exists_part he
    exact ⟨part, hpart, (hentry e he part hreduces).mpr hcovers⟩

/-! ### The transitions of a table -/

lemma made?_ofVital (x : Except Stop Unit) : (Verdict.ofVital x).made? = none := by
  rcases x with (_ | _) | _ <;> rfl

lemma made?_ofLocal {α : Type} (span : Span) (x : Except Stop α) :
    (Verdict.ofLocal span (x.map fun _ => none)).made? = none := by
  rcases x with (_ | _) | _ <;> rfl

/-- Only a transition becomes an entry. -/
lemma exists_transition {st : Statement} {s : SectionState} {e : Entry}
    (h : (st.verdict s).made? = some e) : ∃ tr, st = .transition tr := by
  cases st with
  | directive name value symmetry span =>
    have hnone : ((Statement.directive name value symmetry span).verdict s).made? = none := by
      unfold Statement.verdict
      dsimp only
      split_ifs
      · exact made?_ofVital _
      · exact made?_ofVital _
      · exact made?_ofVital _
      · rfl
    cases hnone.symm.trans h
  | var name value span =>
    have hnone : ((Statement.var name value span).verdict s).made? = none := made?_ofLocal span _
    cases hnone.symm.trans h
  | transition tr => exact ⟨tr, rfl⟩

/-- A transition that passes becomes an entry. -/
lemma exists_entry_of_passes {tr : Transition} {s : SectionState}
    (h : ((Statement.transition tr).verdict s).Passes) :
    ∃ e, (Statement.transition tr).verdict s = .passes (some e) := by
  unfold Statement.verdict at h ⊢
  dsimp only at h ⊢
  split_ifs at h ⊢
  · obtain ⟨made, hmade⟩ := h
    cases hmade
  · revert h
    rcases s.working _ with (_ | _) | e
    · rintro ⟨made, hmade⟩
      cases hmade
    · rintro ⟨made, hmade⟩
      cases hmade
    · exact fun _ => ⟨e, rfl⟩

/-- Where nothing fails, there is a verdict on every statement. -/
lemma Follow.map_fst {statements : List Statement} {verdicts : List (Statement × Verdict)}
    (h : Follow statements verdicts) (hgoes : ∀ p ∈ verdicts, p.2.GoesOn) :
    verdicts.map (·.1) = statements := by
  obtain ⟨before, -, ⟨rfl, rfl⟩ | ⟨st, v, left, hv, rfl, -⟩⟩ := h
  · rfl
  · exact absurd (hgoes (st, v) (List.mem_append_right _ List.mem_cons_self)) hv

/-- The transition passes when its turn comes, and becomes the entry. -/
def Makes (t : Table) (seed : UInt64) (session : Session) (e : Entry) : Prop :=
  ∃ tr, (.transition tr, .passes (some e)) ∈ trace t.statements (t.start seed session)

/-- The entries of the section are what its transitions have become. -/
lemma Goes.mem_entries {s : SectionState} {t : Table} {seed : UInt64} {session : Session}
    (hr : session.registry.Reachable)
    (hgoes : Goes (t.start seed session) s (trace t.statements (t.start seed session)) [])
    (e : Entry) : e ∈ s.entries ↔ t.Makes seed session e := by
  rw [← Array.mem_toList_iff, hgoes.entries_eq, List.mem_filterMap]
  constructor
  · rintro ⟨⟨st, v⟩, hv, hmade⟩
    obtain ⟨-, -, s', -, -, -, rfl⟩ := exists_verdict (start_sound hr t seed) hv
    obtain ⟨tr, rfl⟩ := exists_transition hmade
    obtain ⟨e', he'⟩ := exists_entry_of_passes (hgoes.passes _ hv)
    rw [he'] at hv hmade
    cases hmade
    exact ⟨tr, hv⟩
  · rintro ⟨tr, hv⟩
    exact ⟨_, hv, rfl⟩

/-! ### Statements that all pass -/

/-- The statements are obeyed one after the other, and become these entries. -/
inductive AllPass : SectionState → List (Statement × Option Entry) → SectionState → Prop
  | nil (s : SectionState) : AllPass s [] s
  | cons {s s₁ s' : SectionState} {st : Statement} {made : Option Entry}
    {l : List (Statement × Option Entry)} (hv : st.verdict s = .passes made)
    (hrun : runFrom (obey st) s = (.ok ⟨⟩, s₁)) (h : AllPass s₁ l s') :
    AllPass s ((st, made) :: l) s'

namespace AllPass

variable {s s' : SectionState} {l : List (Statement × Option Entry)} {nb : Neighborhood}

lemma trace_eq (h : AllPass s l s') :
    trace (l.map (·.1)) s = l.map fun p => (p.1, .passes p.2) := by
  induction h with
  | nil => rfl
  | cons hv hrun _ ih =>
    rw [List.map_cons, trace, hv, hrun]
    exact congrArg _ ih

lemma runFrom_forM (h : AllPass s l s') :
    runFrom ((l.map (·.1)).forM obey) s = (.ok ⟨⟩, s') := by
  induction h with
  | nil => rfl
  | cons hv hrun _ ih =>
    rw [List.map_cons, List.forM_eq_forM, List.forM_cons, runFrom_bind, hrun]
    exact ih

lemma var {name : String} {value : Expr} {span : Span} {v : Variable} {scope' : Scope}
    (hopens : Opens s scope)
    (hv : runFrom (Scope.declaring name value span) scope = (.ok v, scope'))
    (h : AllPass (s.taking ⟨s.session.registry, scope'⟩) l s') :
    AllPass s ((.var name value span, none) :: l) s' :=
  .cons (verdict_var hopens hv) (runFrom_obey_var hopens hv) h

/-- Transitions that leave registry and scope as they are can all be laid out in one state. -/
lemma transitions (made : List (Transition × Entry)) (hnb : s.neighborhood = some nb)
    (hopens : Opens s scope)
    (h : ∀ p ∈ made, runFrom (entry (some nb) s.symmetry p.1) ⟨s.session.registry, scope⟩ =
      (.ok p.2, ⟨s.session.registry, scope⟩)) :
    ∃ s', AllPass s (made.map fun p => (.transition p.1, some p.2)) s' ∧
      s'.session.registry = s.session.registry := by
  induction made generalizing s with
  | nil => exact ⟨s, .nil s, rfl⟩
  | cons p made ih =>
    rw [List.forall_mem_cons] at h
    obtain ⟨s', hrest, hregistry⟩ :=
      ih (s := (s.taking ⟨s.session.registry, scope⟩).adding p.2) hnb (.inl rfl) h.2
    exact ⟨s', .cons (verdict_transition hnb hopens h.1) (runFrom_obey_transition hnb hopens h.1)
      hrest, hregistry⟩

lemma compiles {session : Session} {t : Table} {seed : UInt64}
    (h : AllPass (t.start seed session) l s') (hl : l.map (·.1) = t.statements)
    (hr : session.registry.Reachable) :
    ∃ c session', runFrom (t.compile seed) session = (.ok (.ok c), session') := by
  have hpasses : ∀ p ∈ trace t.statements (t.start seed session), p.2.Passes := by
    rw [← hl, h.trace_eq]
    intro p hp
    obtain ⟨q, -, rfl⟩ := List.mem_map.mp hp
    exact ⟨q.2, rfl⟩
  obtain ⟨c, session', -, -, -, -, -, hrun, -⟩ :=
    compile_passes hr (fun st _ => st.meets_none) hpasses
  exact ⟨c, session', hrun⟩

end AllPass

lemma parse_vonNeumann : Neighborhood.parse "vonNeumann" = .ok .vonNeumann := by
  have hname : Neighborhood.named "vonNeumann" = .ok .vonNeumann := by cbv
  have hcomma : "vonNeumann".contains ',' = false := by cbv
  unfold Neighborhood.parse
  simp only [hcomma, hname]
  rfl

/-- A section may start with a neighborhood and a symmetry that can be declared. -/
lemma allPass_settled {s s' : SectionState} {value : String} {e : Option SymmetryExpr} {q : Span}
    {t : Symmetry} {l : List (Statement × Option Entry)} (hs : s.entries.isEmpty = true)
    (hdeclare : runFrom (Registry.declare .vonNeumann (e.getD { name := value, span := q }))
      s.session.registry = (.ok t, r))
    (h : AllPass ((s.settingNeighborhood .vonNeumann).settingSymmetry t r) l s') (p : Span) :
    AllPass s ((.directive "neighborhood" "vonNeumann" none p, none) ::
      (.directive "symmetries" value e q, none) :: l) s' := by
  have hword : Text.lower (Text.trim "neighborhood") = "neighborhood" := by cbv
  have hword' : Text.lower (Text.trim "symmetries") = "symmetries" := by cbv
  have hnb : runFrom (setNeighborhood "vonNeumann" p) s =
      (.ok ⟨⟩, s.settingNeighborhood .vonNeumann) := by
    rw [runFrom_setNeighborhood hs, parse_vonNeumann]
  have hsym : runFrom (setSymmetry value e q) (s.settingNeighborhood .vonNeumann) =
      (.ok ⟨⟩, (s.settingNeighborhood .vonNeumann).settingSymmetry t r) := by
    have hregistry : (s.settingNeighborhood .vonNeumann).session.registry =
        s.session.registry := rfl
    rw [runFrom_setSymmetry (s := s.settingNeighborhood .vonNeumann) rfl, hregistry, hdeclare]
  have hobey : runFrom (obey (.directive "neighborhood" "vonNeumann" none p)) s =
      (.ok ⟨⟩, s.settingNeighborhood .vonNeumann) := by
    simpa [obey, hword] using hnb
  have hobey' : runFrom (obey (.directive "symmetries" value e q))
      (s.settingNeighborhood .vonNeumann) =
      (.ok ⟨⟩, (s.settingNeighborhood .vonNeumann).settingSymmetry t r) := by
    simpa [obey, hword'] using hsym
  refine .cons ?_ hobey (.cons ?_ hobey' h)
  · simp [Statement.verdict, hword, hnb, Verdict.ofVital]
  · simp [Statement.verdict, hword', hsym, Verdict.ofVital]

lemma identity_mem_of_declare {nb : Neighborhood} {e : SymmetryExpr} {r' : Registry} {t : Symmetry}
    (hr : r.Sound) (h : runFrom (Registry.declare nb e) r = (.ok t, r')) :
    identity nb.size ∈ t.relabelings := by
  have hkeeps := Registry.keeps_declare hr nb e
  have hsound := hkeeps.sound
  have hpost := hkeeps.post t (by rw [h])
  rw [h] at hsound hpost
  obtain ⟨hknows, rfl, -⟩ := hpost
  exact Symmetry.identity_mem (hsound.valid t hknows)

lemma succeeds_turns (hr : r.Sound) (span : Span) :
    Registry.Succeeds r (Registry.declare .vonNeumann { name := "rotate4", span := span }) := by
  have hname : Text.lower (Text.trim "rotate4") = "rotate4" := by cbv
  have hrecipe : Neighborhood.recipe? .vonNeumann "rotate4" = some (.rotate 4) := by cbv
  exact Registry.succeeds_declare_class hr hname hrecipe span

def Scope.twoStates (seed : UInt64) : Scope where
  stateCount := 2
  vars := #[{ name := "any", states := [0, 1] }, { name := "live", states := [1] }]
  names := ((NameSource.ofSeed seed).reserve "any").reserve "live"

/-! ### A table that compiles -/

/-- An empty cell below a full one is filled, whatever the others are. -/
def growth : Transition :=
  let span : Span := ⟨5, 1, 1⟩
  { initial := .int "0" span
    napkin := [⟨"N", "", .int "1" span, span⟩, ⟨"E", "W", .name "a" span, span⟩]
    result := .map ⟨"E", span⟩ (.binary .times (.int "1" span) (.int "2" span) span) span
    auxiliaries := []
    span := span }

/-- Under some symmetry, an empty cell next to a full one is filled. -/
def growing (value : String) (e : Option SymmetryExpr) : Table where
  name := "growing"
  statements := [
    .directive "neighborhood" "vonNeumann" none ⟨2, 1, 1⟩,
    .directive "symmetries" value e ⟨3, 1, 1⟩,
    .var "a" (.set [.int "0" ⟨4, 1, 1⟩, .int "1" ⟨4, 1, 1⟩] false ⟨4, 1, 1⟩) ⟨4, 1, 1⟩,
    .transition growth]

/-- What the transition becomes: the eastern neighbor is referred to, so it is split. -/
def grown (t : Symmetry) : Entry :=
  let a : Variable := { name := "a", states := [0, 1], span := ⟨4, 1, 1⟩ }
  let image : Variable := { name := "", states := [1, 1], anonymous := true }
  let row (east : ℕ) : Row := [.state 0 none 0, .state 1 none 1, .state east (some ⟨a, east⟩) 2,
    .free a 3, .free a 4, .state 1 (some ⟨image, east⟩) 5]
  { rule := {
      neighborhood := .vonNeumann
      cells := [.literal 0 none, .literal 1 none, .free a, .free a, .free a,
        .mapping 2 [1, 1] false ⟨5, 1, 1⟩]
      symmetry := t
      auxiliaries := []
      span := ⟨5, 1, 1⟩ }
    rows := [row 0, row 1]
    auxiliaryRows := [] }

def turning : Table := growing "rotate4" none

lemma name_of_growing {value name : String} {e : Option SymmetryExpr} {x : Expr} {span : Span}
    (h : .var name x span ∈ (growing value e).statements) : name = "a" := by
  simp only [growing, List.mem_cons, Statement.var.injEq, reduceCtorEq, List.not_mem_nil, or_false,
    false_or] at h
  exact h.1

lemma growing_allPass (session : Session) (value : String) (e : Option SymmetryExpr) {t : Symmetry}
    (hdeclare : runFrom (Registry.declare .vonNeumann
      (e.getD { name := value, span := ⟨3, 1, 1⟩ })) session.registry = (.ok t, r))
    (seed : UInt64) :
    ∃ s, AllPass ((growing value e).start seed session)
        ((growing value e).statements.zip [none, none, none, some (grown t)]) s ∧
      s.session.registry = r := by
  have hvar : runFrom (Scope.declaring "a"
      (.set [.int "0" ⟨4, 1, 1⟩, .int "1" ⟨4, 1, 1⟩] false ⟨4, 1, 1⟩) ⟨4, 1, 1⟩)
      (Scope.twoStates seed) = (.ok ⟨"a", [0, 1], false, ⟨4, 1, 1⟩⟩,
        (Scope.twoStates seed).declare ⟨"a", [0, 1], false, ⟨4, 1, 1⟩⟩) := by
    cbv
  have hentry : runFrom (entry (some .vonNeumann) (some t) growth)
      ⟨r, (Scope.twoStates seed).declare ⟨"a", [0, 1], false, ⟨4, 1, 1⟩⟩⟩ = (.ok (grown t),
        ⟨r, (Scope.twoStates seed).declare ⟨"a", [0, 1], false, ⟨4, 1, 1⟩⟩⟩) := by
    cbv
  let s₀ := (growing value e).start seed session
  let s₁ := (s₀.settingNeighborhood .vonNeumann).settingSymmetry t r
  obtain ⟨s, hlast, hregistry⟩ := AllPass.transitions (s := s₁.taking ⟨r, _⟩)
    [(growth, grown t)] rfl (.inl rfl) (List.forall_mem_singleton.mpr hentry)
  exact ⟨s, allPass_settled rfl hdeclare (.var (.inr ⟨rfl, rfl⟩) hvar hlast) ⟨2, 1, 1⟩, hregistry⟩

lemma compile_growing {session : Session} (hr : session.registry.Reachable) (value : String)
    (e : Option SymmetryExpr) (hdeclare : Registry.Succeeds session.registry
      (Registry.declare .vonNeumann (e.getD { name := value, span := ⟨3, 1, 1⟩ })))
    (seed : UInt64) :
    ∃ t c session', identity 4 ∈ t.relabelings ∧
      trace (growing value e).statements ((growing value e).start seed session) =
        (growing value e).statements.zip
          [.passes none, .passes none, .passes none, .passes (some (grown t))] ∧
      runFrom ((growing value e).compile seed) session = (.ok (.ok c), session') := by
  obtain ⟨t, r, hrun⟩ := hdeclare
  obtain ⟨s, hpass, -⟩ := growing_allPass session value e hrun seed
  obtain ⟨c, session', hcompile⟩ := hpass.compiles rfl hr
  exact ⟨t, c, session', identity_mem_of_declare hr.sound hrun, hpass.trace_eq, hcompile⟩

/-! ### The meaning of a table -/

/-- **A compiled table means what was written.** If names are plain and no symmetry is declared as a
union, the compiled section covers exactly the tuples that the rows of some transition cover, under
the symmetry that the transition was declared under. -/
theorem compile_covers {session session' : Session} {t : Table} {seed : UInt64}
    (hr : session.registry.Reachable)
    (hnames : ∀ name value span, .var name value span ∈ t.statements → Plain name)
    (hsym : ∀ name value e span, .directive name value (some e) span ∈ t.statements → e.Uncombined)
    (h : runFrom (t.compile seed) session = (.ok (.ok c), session')) :
    let verdicts := trace t.statements (t.start seed session)
    verdicts.map (·.1) = t.statements ∧
      (∀ tr v, (.transition tr, v) ∈ verdicts → ∃ e, v = .passes (some e)) ∧
      ∀ center napkin result, c.Covers center napkin result ↔
        ∃ tr e, (.transition tr, .passes (some e)) ∈ verdicts ∧
          e.rule.symmetry.Covers (e.rows ++ e.auxiliaryRows) center napkin result := by
  have hmeets : ∀ st ∈ t.statements, st.Meets ⟨True, False, Plain⟩ := by
    intro st hst
    cases st with
    | directive name value symmetry span =>
      rintro - e he
      cases symmetry with
      | none => cases he
      | some x =>
        cases he
        exact hsym _ _ _ _ hst
    | var name value span => exact .inr (hnames _ _ _ hst)
    | transition tr => exact False.elim
  obtain ⟨s, r, scope, parts, l, hs, hgoes, hwrites⟩ := compile_writes hr hmeets h
  refine ⟨(follow_trace _ _).map_fst hgoes.goesOn, fun tr v hv => ?_,
    fun center napkin result => ?_⟩
  · obtain ⟨-, -, s', -, -, -, rfl⟩ := exists_verdict (start_sound hr t seed) hv
    exact exists_entry_of_passes (hgoes.passes _ hv)
  rw [hwrites.covers_entries hs trivial fun _ => id]
  simp only [hgoes.mem_entries hr]
  constructor
  · rintro ⟨e, ⟨tr, hv⟩, hcovers⟩
    exact ⟨tr, e, hv, hcovers⟩
  · rintro ⟨tr, e, hv, hcovers⟩
    exact ⟨e, ⟨tr, hv⟩, hcovers⟩

/-- The symmetry is composed of quarter turns and a reflection. -/
def growingAround : Table := growing "" (some (Rule.crossed "compose" ⟨3, 1, 1⟩))

lemma compile_growingAround : ∃ t c session', identity 4 ∈ t.relabelings ∧
    trace growingAround.statements (growingAround.start 0 {}) = growingAround.statements.zip
      [.passes none, .passes none, .passes none, .passes (some (grown t))] ∧
    runFrom (growingAround.compile 0) {} = (.ok (.ok c), session') := by
  have hop : Text.lower "compose" = "compose" := by cbv
  have hreach : (Session.registry {}).Reachable := .start
  exact compile_growing hreach "" (some _)
    (Rule.succeeds_crossed hreach.sound (.inl hop) ⟨3, 1, 1⟩) 0

theorem compile_covers_growing : ∃ c session',
    runFrom (growingAround.compile 0) {} = (.ok (.ok c), session') ∧
      c.Covers 0 [1, 0, 1, 0] 1 ∧ ∀ napkin result, ¬ c.Covers 1 napkin result := by
  have hreach : (Session.registry {}).Reachable := .start
  obtain ⟨t, c, session', hone, htrace, hrun⟩ := compile_growingAround
  have hnames : ∀ name x span, .var name x span ∈ growingAround.statements → Plain name := by
    intro name x span hvar
    unfold growingAround at hvar
    obtain rfl := name_of_growing hvar
    simp [Plain]
  have hsym : ∀ name value e span, .directive name value (some e) span ∈ growingAround.statements →
      e.Uncombined := by
    intro name value e span he
    obtain ⟨-, -, rfl, -⟩ : name = "symmetries" ∧ value = "" ∧
        e = Rule.crossed "compose" ⟨3, 1, 1⟩ ∧ span = ⟨3, 1, 1⟩ := by
      simpa [growingAround, growing] using he
    exact Rule.uncombined_crossed
  obtain ⟨-, -, hcovers⟩ := compile_covers hreach hnames hsym hrun
  rw [htrace] at hcovers
  refine ⟨c, session', hrun, (hcovers _ _ _).mpr ?_, fun napkin result h => ?_⟩
  · refine ⟨growth, grown t, by simp [growingAround, growing], _, List.mem_cons_self, _, hone,
      [1, 0, 1, 0], rfl, ?_⟩
    exact ⟨fun n => if n = 3 then 1 else 0, by simp [Value.Takes]⟩
  · obtain ⟨tr, e, hmem, row, hrow, q, -, neighbors, -, pick, hpick⟩ := (hcovers _ _ _).mp h
    obtain ⟨rfl, rfl⟩ : tr = growth ∧ e = grown t := by
      simpa [growingAround, growing] using hmem
    rcases List.mem_pair.mp hrow with rfl | rfl <;> cases hpick with
    | cons h _ => cases h

end Table

end RuleTable
