import RuleTable.Proofs.Copies

/-!
Where the lines of a table come from.

The rows that transitions are reduced to are rendered one after the other, in source order. A text
is written when it is rendered for the first time; after that its line learns only of the places it
has not come from yet. So the lines are the texts in order of appearance, each with the places of
all the transitions that render it.
-/

namespace RuleTable

open SectionM

lemma nodup_eraseDups {α : Type} [DecidableEq α] (l : List α) : l.eraseDups.Nodup := by
  induction l using List.reverseRecOn with
  | nil => exact List.nodup_nil
  | append_singleton l x ih =>
    rw [eraseDups_concat]
    split
    · exact ih
    · next hx =>
      rw [← List.concat_eq_append]
      exact ih.concat (mt List.mem_eraseDups.mp hx)

/-! ### One row -/

namespace Listing

variable {l : Listing} {rendered : List (String × Span)} {span : Span} {row : Row} {text : String}
  {i j : ℕ} {line : Line}

/-- The places that a text was rendered for, as they first appear. -/
def sources (rendered : List (String × Span)) (text : String) : List Span :=
  ((rendered.filter (·.1 == text)).map (·.2)).eraseDups

/-- The listing holds what was rendered: every text once, as they first appear, with its places, and
the number of those that came again. -/
structure Collects (l : Listing) (rendered : List (String × Span)) : Prop where
  texts : l.lines.toList.map (·.text) = (rendered.map (·.1)).eraseDups
  spans : ∀ line ∈ l.lines, line.spans = sources rendered line.text
  places : ∀ text (i : ℕ), l.places[text]? = some i ↔
    ∃ line : Line, l.lines[i]? = some line ∧ line.text = text
  count : l.lines.size + l.duplicates = rendered.length

lemma collects_empty : Collects {} [] := ⟨rfl, by simp, by simp, rfl⟩

lemma sources_concat_same (rendered : List (String × Span)) (text : String) (span : Span) :
    sources (rendered ++ [(text, span)]) text =
      if span ∈ sources rendered text then sources rendered text
      else sources rendered text ++ [span] := by
  simp only [sources, List.filter_append, List.map_append, List.mem_eraseDups]
  rw [List.filter_cons_of_pos (by simp), List.filter_nil]
  exact eraseDups_concat _ _

lemma sources_concat_other {other : String} (h : text ≠ other) (rendered : List (String × Span))
    (span : Span) : sources (rendered ++ [(text, span)]) other = sources rendered other := by
  simp [sources, h]

lemma sources_eq_nil : sources rendered text = [] ↔ text ∉ rendered.map (·.1) := by
  simp [sources, List.eq_nil_iff_forall_not_mem]

lemma Collects.mem_texts (h : l.Collects rendered) :
    text ∈ rendered.map (·.1) ↔ ∃ i, l.places[text]? = some i := by
  rw [← List.mem_eraseDups, ← h.texts]
  simp only [h.places, List.mem_map, Array.mem_toList_iff, Array.mem_iff_getElem?]
  constructor
  · rintro ⟨line, ⟨i, hi⟩, he⟩
    exact ⟨i, line, hi, he⟩
  · rintro ⟨i, line, hi, he⟩
    exact ⟨line, ⟨i, hi⟩, he⟩

lemma spans_noting (span : Span) (line : Line) : (noting span line).spans =
    if span ∈ line.spans then line.spans else line.spans ++ [span] := by
  simp only [noting, List.contains_eq_mem, decide_eq_true_eq]
  split <;> rfl

/-- A text that has been written already. -/
lemma Collects.again (h : l.Collects rendered) (hplace : l.places[text]? = some i) (span : Span)
    (copies : Copies) : Collects
      { l with
        lines := l.lines.modify i (noting span)
        copies := copies
        duplicates := l.duplicates + 1 }
      (rendered ++ [(text, span)]) := by
  have hmem : text ∈ rendered.map (·.1) := h.mem_texts.mpr ⟨i, hplace⟩
  have hget : ∀ j, (l.lines.modify i (noting span))[j]? =
      if i = j then l.lines[j]?.map (noting span) else l.lines[j]? := fun j =>
    Array.getElem?_modify
  refine ⟨?_, fun line hline => ?_, fun other j => ?_, ?_⟩
  · have hmap := congrArg Array.toList (map_text_modify l.lines i (text_noting span))
    simp only [Array.toList_map] at hmap
    rw [List.map_append, List.map_singleton, eraseDups_concat, if_pos hmem, ← h.texts]
    exact hmap
  · obtain ⟨j, hj⟩ := Array.mem_iff_getElem?.mp hline
    rw [hget] at hj
    split at hj
    · next hij =>
      subst hij
      obtain ⟨old, hold, htext⟩ := (h.places text i).mp hplace
      rw [hold] at hj
      cases hj
      rw [text_noting, spans_noting, htext, sources_concat_same, ← htext,
        h.spans old (Array.mem_of_getElem? hold)]
    · next hij =>
      have hne : text ≠ line.text := by
        intro he
        rw [(h.places text j).mpr ⟨line, hj, he.symm⟩] at hplace
        exact hij (Option.some.inj hplace).symm
      rw [sources_concat_other hne]
      exact h.spans line (Array.mem_of_getElem? hj)
  · rw [h.places]
    simp only [hget]
    split
    · simp [text_noting]
    · rfl
  · simp only [Array.size_modify, List.length_append, List.length_singleton]
    have hcount := h.count
    omega

/-- A text that is rendered for the first time. -/
lemma Collects.first (h : l.Collects rendered) (hplace : l.places[text]? = none) (span : Span)
    (copies : Copies) : Collects
      { l with
        lines := l.lines.push ⟨text, [span]⟩
        places := l.places.insert text l.lines.size
        copies := copies }
      (rendered ++ [(text, span)]) := by
  have hnew : text ∉ rendered.map (·.1) := by
    rw [h.mem_texts, hplace]
    simp
  refine ⟨?_, fun line hline => ?_, fun other j => ?_, ?_⟩
  · rw [Array.toList_push, List.map_append, h.texts, List.map_append, List.map_singleton,
      List.map_singleton, eraseDups_concat, if_neg hnew]
  · rcases Array.mem_push.mp hline with hline | rfl
    · have hne : text ≠ line.text := by
        intro he
        refine hnew (List.mem_eraseDups.mp ?_)
        rw [← h.texts, he]
        exact List.mem_map_of_mem (Array.mem_toList_iff.mpr hline)
      rw [sources_concat_other hne]
      exact h.spans line hline
    · rw [sources_concat_same, sources_eq_nil.mpr hnew]
      rfl
  · rw [Std.HashMap.getElem?_insert, Array.getElem?_push]
    rcases eq_or_ne text other with rfl | hne
    · rw [if_pos (beq_self_eq_true _), Option.some.injEq]
      constructor
      · rintro rfl
        exact ⟨_, if_pos rfl, rfl⟩
      · rintro ⟨line, hline, he⟩
        by_contra hj
        rw [if_neg (Ne.symm hj)] at hline
        rw [(h.places text j).mpr ⟨line, hline, he⟩] at hplace
        cases hplace
    · rw [if_neg (by simpa using hne), h.places]
      split
      · next hj =>
        rw [hj, Array.getElem?_eq_none le_rfl]
        simp [hne]
      · rfl
  · simp only [Array.size_push, List.length_append, List.length_singleton]
    have hcount := h.count
    omega

/-- **One row.** -/
lemma Collects.add (h : l.Collects rendered) (span : Span) (row : Row) :
    (l.add span row).Collects (rendered ++ [(row.text, span)]) := by
  rw [add_eq]
  cases hplace : l.places[row.text]? with
  | some i => exact h.again hplace span _
  | none => exact h.first hplace span _

/-! ### All rows -/

/-- The rows in turn, each with its text and the place of its transition. -/
def rendering (blocks : List (Span × List Row)) : List (String × Span) :=
  blocks.flatMap fun b => b.2.map fun row => (row.text, b.1)

lemma Collects.foldl (h : l.Collects rendered) (span : Span) (rows : List Row) :
    (rows.foldl (·.add span) l).Collects (rendered ++ rows.map fun row => (row.text, span)) := by
  induction rows generalizing l rendered with
  | nil => simpa using h
  | cons row rows ih =>
    have hrest := ih (h.add span row)
    rwa [List.append_assoc] at hrest

/-- **All entries.** -/
lemma Collects.written (h : l.Collects rendered) (blocks : List (Entry × List Row)) :
    (Table.written blocks l).Collects
      (rendered ++ rendering (blocks.map fun b => (b.1.rule.span, b.2))) := by
  induction blocks generalizing l rendered with
  | nil => simpa [Table.written, rendering] using h
  | cons b blocks ih =>
    have hrest := ih (h.foldl b.1.rule.span b.2)
    rwa [List.append_assoc] at hrest

/-- Where the same rows are rendered for two places, every text comes from both. -/
lemma sources_twice {rows : List Row} {first second : Span} (hne : first ≠ second) {text : String}
    (h : sources (rendering [(first, rows), (second, rows)]) text ≠ []) :
    sources (rendering [(first, rows), (second, rows)]) text = [first, second] := by
  have hplaces : ∀ span : Span,
      ((rows.map fun row => (row.text, span)).filter (·.1 == text)).map (·.2) =
      List.replicate (rows.countP (·.text == text)) span := by
    intro span
    rw [List.filter_map, List.map_map, List.countP_eq_length_filter]
    exact List.map_const'
  have hsources : sources (rendering [(first, rows), (second, rows)]) text =
      (List.replicate (rows.countP (·.text == text)) first ++
        List.replicate (rows.countP (·.text == text)) second).eraseDups := by
    simp [sources, rendering, hplaces]
  rw [hsources] at h ⊢
  cases hcount : rows.countP (·.text == text) with
  | zero => simp [hcount] at h
  | succ k => simp [List.replicate_succ, List.eraseDups_cons, hne.symm]

end Listing

/-- The section accounts for what was rendered: its lines have different texts, those that were
rendered, in order of appearance; the places of a line are those that its text was rendered for, in
order of appearance, and there are some; every row was written or counted as a duplicate. -/
structure CompiledSection.AccountsFor (c : CompiledSection) (rendered : List (String × Span)) :
    Prop where
  distinct : (c.lines.map (·.text)).Nodup
  inOrder : c.lines.map (·.text) = (rendered.map (·.1)).eraseDups
  spans : ∀ line ∈ c.lines, line.spans = Listing.sources rendered line.text ∧ line.spans ≠ []
  lines : c.stats.lines = c.lines.length
  total : c.stats.lines + c.stats.duplicates = rendered.length

/-! ### Transitions -/

def Statement.transition? : Statement → Option Transition
  | .transition tr => some tr
  | .directive _ _ _ _ | .var _ _ _ => none

namespace Table

variable {s s' : SectionState} {c : CompiledSection} {parts : List (List Row)}
    {l : Listing} {t : Table}
  {seed : UInt64} {session session' : Session} {tr : Transition} {e : Entry}

/-- The transition that a statement is, and the entry that it becomes. -/
def becomes? (p : Statement × Verdict) : Option (Transition × Entry) :=
  p.1.transition?.bind fun tr => p.2.made?.map fun e => (tr, e)

/-- The transitions of the table in source order, with the entries that they become. -/
def becomes (t : Table) (seed : UInt64) (session : Session) : List (Transition × Entry) :=
  (trace t.statements (t.start seed session)).filterMap becomes?

lemma becomes?_eq_some {p : Statement × Verdict} {q : Transition × Entry} :
    becomes? p = some q ↔ p.1 = .transition q.1 ∧ p.2.made? = some q.2 := by
  obtain ⟨st, v⟩ := p
  obtain ⟨tr, e⟩ := q
  cases st <;> simp [becomes?, Statement.transition?, and_comm]

/-- An entry has the place of its transition. -/
lemma span_of_entry {nb : Option Neighborhood} {symmetry : Option Symmetry} {w w' : Workspace}
    (h : runFrom (entry nb symmetry tr) w = (.ok e, w')) : e.rule.span = tr.span := by
  obtain ⟨rule, w₁, hbuild, h⟩ := runFrom_bind_ok.mp h
  obtain ⟨rows, w₂, -, h⟩ := runFrom_bind_ok.mp h
  cases h
  obtain ⟨nb', symmetry', w₀, -, hlay, -⟩ := Rule.build_ok hbuild
  obtain ⟨initial, w₃, -, hlay⟩ := runFrom_bind_ok.mp hlay
  obtain ⟨neighbors, w₄, -, hlay⟩ := runFrom_bind_ok.mp hlay
  obtain ⟨result, w₅, -, hlay⟩ := runFrom_bind_ok.mp hlay
  obtain ⟨auxiliaries, w₆, -, hlay⟩ := runFrom_bind_ok.mp hlay
  cases hlay
  rfl

lemma exists_entry_of_made {pr : Proviso} (hs : s.Sound pr)
    (h : ((Statement.transition tr).verdict s).made? = some e) :
    ∃ w w', runFrom (entry s.neighborhood s.symmetry tr) w = (.ok e, w') := by
  unfold Statement.verdict at h
  dsimp only at h
  split at h
  · rw [made?_ofVital] at h
    cases h
  obtain ⟨scope, hopens⟩ := exists_opens hs.count.2
  rw [working_eq hopens] at h
  refine ⟨⟨s.session.registry, scope⟩, ?_⟩
  rcases hrun : runFrom (entry s.neighborhood s.symmetry tr) ⟨s.session.registry, scope⟩ with
    ⟨(f | _) | e', w'⟩ <;> rw [hrun] at h <;> cases h
  exact ⟨w', rfl⟩

section

variable (hr : session.registry.Reachable)

include hr

lemma span_of_becomes {q : Transition × Entry} (hq : q ∈ t.becomes seed session) :
    q.2.rule.span = q.1.span := by
  obtain ⟨⟨st, v⟩, hp, hbecomes⟩ := List.mem_filterMap.mp hq
  obtain ⟨hst, hmade⟩ := becomes?_eq_some.mp hbecomes
  obtain ⟨-, -, s, -, -, hs, rfl⟩ := exists_verdict (start_sound hr t seed) hp
  obtain rfl : st = .transition q.1 := hst
  obtain ⟨w, w', hentry⟩ := exists_entry_of_made hs hmade
  exact span_of_entry hentry

variable (hgoes : Goes (t.start seed session) s (trace t.statements (t.start seed session)) [])

include hgoes

/-- Exactly the transitions become entries. -/
lemma Goes.becomes? {p : Statement × Verdict} (hp : p ∈ trace t.statements (t.start seed session)) :
    (becomes? p).map (·.1) = p.1.transition? ∧ (Table.becomes? p).map (·.2) = p.2.made? := by
  obtain ⟨st, v⟩ := p
  have hpasses := hgoes.passes _ hp
  obtain ⟨-, -, s', -, -, -, rfl⟩ := exists_verdict (start_sound hr t seed) hp
  cases hst : st.transition? with
  | some tr =>
    obtain rfl : st = .transition tr := by cases st <;> cases hst; rfl
    obtain ⟨e, he⟩ := exists_entry_of_passes hpasses
    simp [Table.becomes?, Statement.transition?, he, Verdict.made?]
  | none =>
    have hnone : (st.verdict s').made? = none := by
      rw [Option.eq_none_iff_forall_ne_some]
      intro e he
      obtain ⟨tr, rfl⟩ := exists_transition he
      cases hst
    simp [Table.becomes?, hst, hnone]

/-- All transitions of the table do, in their order. -/
lemma Goes.transitions :
    (t.becomes seed session).map (·.1) = t.statements.filterMap Statement.transition? := by
  have hall := (follow_trace t.statements (t.start seed session)).map_fst hgoes.goesOn
  calc (t.becomes seed session).map (·.1)
      = (trace t.statements (t.start seed session)).filterMap
          fun p => (Table.becomes? p).map (·.1) := List.map_filterMap
    _ = (trace t.statements (t.start seed session)).filterMap fun p => p.1.transition? :=
        List.filterMap_congr fun p hp => (hgoes.becomes? hr hp).1
    _ = ((trace t.statements (t.start seed session)).map (·.1)).filterMap
          Statement.transition? := by
        rw [List.filterMap_map]
        rfl
    _ = t.statements.filterMap Statement.transition? := by rw [hall]

lemma Goes.entries : s.entries.toList = (t.becomes seed session).map (·.2) := by
  rw [hgoes.entries_eq, becomes, List.map_filterMap]
  exact List.filterMap_congr fun p hp => (hgoes.becomes? hr hp).2.symm

end

/-- The lines account for what the listing has collected. -/
lemma Counts.accountsFor {rendered : List (String × Span)} (h : Counts s c parts l)
    (hlines : c.lines = l.lines.toList) (hcollects : l.Collects rendered) :
    c.AccountsFor rendered := by
  have htexts : c.lines.map (·.text) = (rendered.map (·.1)).eraseDups := hlines ▸ hcollects.texts
  have hlength : c.stats.lines = c.lines.length := by rw [h.lines, hlines, Array.length_toList]
  refine ⟨htexts ▸ nodup_eraseDups _, htexts, fun line hline => ?_, hlength, ?_⟩
  · have hspans := hcollects.spans line (Array.mem_toList_iff.mp (hlines ▸ hline))
    refine ⟨hspans, ?_⟩
    rw [hspans, ne_eq, Listing.sources_eq_nil, not_not, ← List.mem_eraseDups, ← htexts]
    exact List.mem_map_of_mem hline
  · rw [h.lines, h.duplicates]
    exact hcollects.count

/-- **Where the lines come from.** All transitions of the table become entries, and what these are
reduced to, the rows for the cell itself before those for the cells around it, is what the section
accounts for, in source order and with the places of the transitions. -/
theorem compile_accounts_for_rows (hr : session.registry.Reachable)
    (h : runFrom (t.compile seed) session = (.ok (.ok c), session')) :
    (t.becomes seed session).map (·.1) = t.statements.filterMap Statement.transition? ∧
    ∃ parts, List.Forall₂ (fun q part => Reduces c.symmetry q.2 part)
      (t.becomes seed session) parts ∧
      c.AccountsFor (Listing.rendering (((t.becomes seed session).map (·.1.span)).zip parts)) := by
  obtain ⟨s, s', -, hs, hgoes, hfinish⟩ := compile_finishes hr h
  obtain ⟨c', s₁, r, scope, parts, l, hfinish', -, -, hcounts, hwrites⟩ := finish_ok hs
  cases hfinish.symm.trans hfinish'
  have hentries := hgoes.entries hr
  refine ⟨hgoes.transitions hr, parts, ?_, hcounts.accountsFor hwrites.lines ?_⟩
  · have hreduces := hwrites.reduces
    rwa [hentries, List.forall₂_map_left_iff] at hreduces
  · have hspans : (t.becomes seed session).map (·.1.span) =
        s.entries.toList.map (·.rule.span) := by
      rw [hentries, List.map_map]
      exact List.map_congr_left fun q hq => (span_of_becomes hr hq).symm
    rw [hcounts.listing, hspans, List.zip_map_left]
    exact Listing.collects_empty.written _

/-! ### A table that says the same twice -/

def echo : Table := streams "echo" [⟨3, 1, 10⟩, ⟨4, 1, 10⟩]

lemma compile_echo (hr : session.registry.Reachable) (seed : UInt64) : ∃ turns c session',
    runFrom (echo.compile seed) session = (.ok (.ok c), session') ∧
      echo.becomes seed session = [(flowing ⟨3, 1, 10⟩, flowed ⟨3, 1, 10⟩ turns),
        (flowing ⟨4, 1, 10⟩, flowed ⟨4, 1, 10⟩ turns)] := by
  obtain ⟨turns, c, session', htrace, hrun⟩ :=
    compile_streams hr seed "echo" [⟨3, 1, 10⟩, ⟨4, 1, 10⟩]
  refine ⟨turns, c, session', hrun, ?_⟩
  rw [becomes, echo, htrace]
  rfl

theorem compile_accounts_for_echo : ∃ turns c session' part,
    runFrom (echo.compile 0) {} = (.ok (.ok c), session') ∧
      Reduces c.symmetry (flowed ⟨3, 1, 10⟩ turns) part ∧
      c.lines.map (·.text) = (part.map Row.text ++ part.map Row.text).eraseDups ∧
      (∀ line ∈ c.lines, line.spans = [⟨3, 1, 10⟩, ⟨4, 1, 10⟩]) ∧
      c.stats.lines + c.stats.duplicates = part.length + part.length := by
  have hreach : (Session.registry {}).Reachable := .start
  obtain ⟨turns, c, session', hrun, hbecomes⟩ := compile_echo hreach 0
  obtain ⟨-, parts, hparts, haccounts⟩ := compile_accounts_for_rows hreach hrun
  rw [hbecomes] at hparts haccounts
  cases hparts with
  | @cons _ part _ _ hpart hparts =>
    cases hparts with
    | @cons _ part' _ _ hpart' hparts =>
      cases hparts
      obtain rfl : part = part' := Reduces.unique hpart (e := flowed ⟨3, 1, 10⟩ turns) hpart'
      refine ⟨turns, c, session', part, hrun, hpart, ?_, fun line hline => ?_, ?_⟩
      · simpa [Listing.rendering, Function.comp_def] using haccounts.inOrder
      · obtain ⟨hspans, hne⟩ := haccounts.spans line hline
        rw [hspans] at hne ⊢
        exact Listing.sources_twice (show (⟨3, 1, 10⟩ : Span) ≠ ⟨4, 1, 10⟩ by decide) hne
      · simpa [Listing.rendering] using haccounts.total

end Table

end RuleTable
