import RuleTable.Proofs.Faithfulness

/-!
The next state is determined.

A transition may name its next state by another slot, by a chain of such references, or as what is
left of a variable. Whatever it is, the rows hold a state there, or an occurrence of a variable that
an earlier slot holds as well. This stays so for the cells around it, and when the napkin is
rearranged, so the last field of a line is a number or stands in the line before.
-/

namespace RuleTable

open SectionM

namespace Table

variable {pr : Proviso} {s s' : SectionState} {c : CompiledSection} {r : Registry} {scope : Scope}
  {parts : List (List Row)} {l : Listing} {t : Table} {seed : UInt64} {session session' : Session}

/-! ### The rows that are written -/

/-- The row is among those that a transition is reduced to, for the section as it was compiled. -/
def Emits (t : Table) (seed : UInt64) (session : Session)
    (c : CompiledSection) (row : Row) : Prop :=
  ∃ e part, t.Makes seed session e ∧ Reduces c.symmetry e part ∧ row ∈ part

lemma Reduces.unique {target : Symmetry} {e : Entry} {part part' : List Row}
    (h : Reduces target e part) (h' : Reduces target e part') : part = part' := by
  obtain ⟨rows, auxiliaryRows, ha, hb, rfl⟩ := h
  obtain ⟨rows', auxiliaryRows', ha', hb', rfl⟩ := h'
  rw [ha.unique ha', hb.unique hb']

/-- The rows that are written are those that transitions are reduced to. -/
lemma Writes.emits_iff (h : Writes s c r scope parts l)
    (hentries : ∀ e, e ∈ s.entries ↔ t.Makes seed session e) (row : Row) :
    t.Emits seed session c row ↔ row ∈ parts.flatten := by
  rw [List.mem_flatten]
  constructor
  · rintro ⟨e, part, he, hreduces, hrow⟩
    obtain ⟨part', hpart, hreduces'⟩ := h.exists_part ((hentries e).mpr he)
    exact ⟨part', hpart, hreduces.unique hreduces' ▸ hrow⟩
  · rintro ⟨part, hpart, hrow⟩
    obtain ⟨e, he, hreduces⟩ := h.exists_entry hpart
    exact ⟨e, part, (hentries e).mp he, hreduces, hrow⟩

/-- The texts of the lines are those of the rows. -/
lemma Writes.exists_line_iff (h : Writes s c r scope parts l)
    (hentries : ∀ e, e ∈ s.entries ↔ t.Makes seed session e) (text : String) :
    (∃ line ∈ c.lines, line.text = text) ↔ ∃ row, t.Emits seed session c row ∧ row.text = text := by
  simp only [h.lines, Array.mem_toList_iff, h.lists.texts, h.emits_iff hentries]

/-! ### Their last slots -/

/-- **The next state is determined.** In every row that a transition becomes, for the cell itself or
for one around it, and in every row that these are reduced to, a variable in the last slot is held
by an earlier slot with the same origin. Each line is the text of a row of the latter kind, so there
the field of the variable has come before. -/
theorem compile_determines_results (hr : session.registry.Reachable)
    (h : runFrom (t.compile seed) session = (.ok (.ok c), session')) :
    (∀ e, t.Makes seed session e → ∀ row ∈ e.rows ++ e.auxiliaryRows, row.Determined) ∧
    (∀ row, t.Emits seed session c row → row.Determined ∧
      ∀ v o, row.getLast? = some (.free v o) →
        s!"{v.name}.{row.suffix o}" ∈ row.dropLast.map (Value.field row.suffix)) ∧
    ∀ line ∈ c.lines, ∃ row, t.Emits seed session c row ∧ line.text = row.text := by
  obtain ⟨s, r, scope, parts, l, hs, hgoes, hwrites⟩ :=
    compile_writes hr (fun st _ => st.meets_none) h
  have hentries := hgoes.mem_entries hr
  refine ⟨fun e he row hrow => ?_, fun row hrow => ?_, fun line hline => ?_⟩
  · obtain ⟨nb, scope', -, -, hsound⟩ := hs.entries e ((hentries e).mpr he)
    exact (hsound.rows row hrow).determined
  · have hdetermined := (hwrites.fits hs ((hwrites.emits_iff hentries row).mp hrow)).determined
    exact ⟨hdetermined, fun v o hlast => List.mem_map_of_mem (hdetermined v o hlast)⟩
  · obtain ⟨row, hrow, htext⟩ := (hwrites.exists_line_iff hentries line.text).mp ⟨line, hline, rfl⟩
    exact ⟨row, hrow, htext.symm⟩

/-! ### A table with three occurrences of a variable -/

/-- A cell takes over the state of its northern neighbor where two others are empty. -/
def flowing (span : Span) : Transition where
  initial := .name "any" ⟨3, 1, 1⟩
  napkin := [⟨"N", "E", .name "any" ⟨3, 4, 1⟩, ⟨3, 4, 1⟩⟩,
    ⟨"S", "W", .int "0" ⟨3, 7, 1⟩, ⟨3, 7, 1⟩⟩]
  result := .ref ⟨"N", ⟨3, 10, 1⟩⟩
  auxiliaries := []
  span := span

/-- What the transition becomes under a symmetry. -/
def flowed (span : Span) (t : Symmetry) : Entry :=
  let any := ⟨"any", [0, 1], false, .nowhere⟩
  { rule := {
      neighborhood := .vonNeumann
      cells := [.free any, .free any, .free any, .literal 0 none, .literal 0 none,
        .binding 1 ⟨3, 10, 1⟩]
      symmetry := t
      auxiliaries := []
      span := span }
    rows := [[.free any 0, .free any 1, .free any 2, .state 0 none 3, .state 0 none 4, .free any 1]]
    auxiliaryRows := [] }

/-- The same under rotations, at these places. -/
def streams (name : String) (spans : List Span) : Table where
  name := name
  statements := .directive "neighborhood" "vonNeumann" none ⟨1, 1, 1⟩ ::
    .directive "symmetries" "rotate4" none ⟨2, 1, 1⟩ ::
    spans.map fun span => .transition (flowing span)

lemma entry_flowing (span : Span) (t : Symmetry) (r : Registry) (seed : UInt64) :
    runFrom (entry (some .vonNeumann) (some t) (flowing span)) ⟨r, Scope.twoStates seed⟩ =
      (.ok (flowed span t), ⟨r, Scope.twoStates seed⟩) := by
  cbv

/-- The table compiles, and its transitions become these entries. -/
lemma compile_streams (hr : session.registry.Reachable) (seed : UInt64) (name : String)
    (spans : List Span) : ∃ turns c session',
    trace (streams name spans).statements ((streams name spans).start seed session) =
      (.directive "neighborhood" "vonNeumann" none ⟨1, 1, 1⟩, .passes none) ::
      (.directive "symmetries" "rotate4" none ⟨2, 1, 1⟩, .passes none) ::
      spans.map (fun span => (.transition (flowing span), .passes (some (flowed span turns)))) ∧
    runFrom ((streams name spans).compile seed) session = (.ok (.ok c), session') := by
  obtain ⟨turns, r, hturns⟩ := succeeds_turns hr.sound ⟨2, 1, 1⟩
  let s₀ := (streams name spans).start seed session
  obtain ⟨s, hlast, -⟩ := AllPass.transitions
    (s := (s₀.settingNeighborhood .vonNeumann).settingSymmetry turns r)
    (spans.map fun span => (flowing span, flowed span turns)) rfl (.inr ⟨rfl, rfl⟩) (by
      rintro p hp
      obtain ⟨span, -, rfl⟩ := List.mem_map.mp hp
      exact entry_flowing span turns r seed)
  have hpass := allPass_settled (s := s₀) (e := none) rfl hturns hlast ⟨1, 1, 1⟩
  obtain ⟨c, session', hrun⟩ := hpass.compiles (by simp [streams, Function.comp_def]) hr
  have htrace := hpass.trace_eq
  simp only [List.map_cons, List.map_map, Function.comp_def] at htrace
  exact ⟨turns, c, session', htrace, hrun⟩

def stream : Table := streams "stream" [⟨3, 1, 10⟩]

lemma compile_stream (hr : session.registry.Reachable) (seed : UInt64) : ∃ turns c session',
    runFrom (stream.compile seed) session = (.ok (.ok c), session') ∧
      stream.Makes seed session (flowed ⟨3, 1, 10⟩ turns) := by
  obtain ⟨turns, c, session', htrace, hrun⟩ := compile_streams hr seed "stream" [⟨3, 1, 10⟩]
  refine ⟨turns, c, session', hrun, flowing ⟨3, 1, 10⟩, ?_⟩
  rw [stream, htrace]
  simp

theorem compile_determines_results_stream : ∃ turns c session',
    runFrom (stream.compile 0) {} = (.ok (.ok c), session') ∧
      stream.Makes 0 {} (flowed ⟨3, 1, 10⟩ turns) ∧
      (∀ row ∈ (flowed ⟨3, 1, 10⟩ turns).rows, row.Determined) ∧
      (∀ row, stream.Emits 0 {} c row → row.Determined) ∧
      ∀ line ∈ c.lines, ∃ row, stream.Emits 0 {} c row ∧ line.text = row.text := by
  have hreach : (Session.registry {}).Reachable := .start
  obtain ⟨turns, c, session', hrun, hmakes⟩ := compile_stream hreach 0
  obtain ⟨hrows, hemits, hlines⟩ := compile_determines_results hreach hrun
  exact ⟨turns, c, session', hrun, hmakes,
    fun row hrow => hrows _ hmakes row (List.mem_append_left _ hrow),
    fun row hrow => (hemits row hrow).1, hlines⟩

end Table

end RuleTable
