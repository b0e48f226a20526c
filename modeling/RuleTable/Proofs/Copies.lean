import RuleTable.Proofs.Determinacy
import RuleTable.Proofs.Forms

/-!
The copies of variables.

In the line of a row, the occurrences of a variable are numbered as they first appear, and fields
are the same where the occurrence is. A table needs as many copies of a variable as the line with
the most occurrences, and since that line has all the numbers below, a copy is declared exactly if a
line uses it. First come the variables with a name, then those without, each in the order of the
scope.
-/

namespace RuleTable

open SectionM

/-! ### Numbers in order of appearance -/

def Value.originIf (p : Variable → Bool) : Value → Option ℤ
  | .free v o => if p v then some o else none
  | .state _ _ _ => none

/-- The origins of the variables' occurrences, as they first appear. -/
def Row.origins (row : Row) (p : Variable → Bool) : List ℤ :=
  (row.filterMap (Value.originIf p)).eraseDups

section Origins

variable {row : Row} {p : Variable → Bool} {o : ℤ} {v : Variable}

lemma Value.originIf_eq_some {u : Value} : u.originIf p = some o ↔
    ∃ v, u = .free v o ∧ p v = true := by
  cases u with
  | state x d o' => simp [originIf]
  | free w o' =>
    simp only [originIf, Option.ite_none_right_eq_some, Option.some.injEq, Value.free.injEq]
    constructor
    · rintro ⟨hp, rfl⟩
      exact ⟨w, ⟨rfl, rfl⟩, hp⟩
    · rintro ⟨v, ⟨rfl, rfl⟩, hp⟩
      exact ⟨hp, rfl⟩

lemma Row.mem_origins : o ∈ row.origins p ↔ ∃ v, .free v o ∈ row ∧ p v = true := by
  simp only [Row.origins, List.mem_eraseDups, List.mem_filterMap, Value.originIf_eq_some]
  constructor
  · rintro ⟨_, hu, v, rfl, hp⟩
    exact ⟨v, hu, hp⟩
  · rintro ⟨v, hv, hp⟩
    exact ⟨_, hv, v, rfl, hp⟩

lemma eraseDups_concat {α : Type} [DecidableEq α] (l : List α) (x : α) :
    (l ++ [x]).eraseDups = if x ∈ l then l.eraseDups else l.eraseDups ++ [x] := by
  rw [List.eraseDups_append]
  by_cases hx : x ∈ l
  · simp [List.removeAll, hx]
  · simp [List.removeAll, hx, List.eraseDups_cons]

lemma Row.origins_concat_same {u : Value} (h : ∀ o, u.originIf p = some o → o ∈ row.origins p) :
    (row ++ [u]).origins p = row.origins p := by
  rw [origins, List.filterMap_append]
  cases hu : u.originIf p with
  | none => simp [hu, origins]
  | some o =>
    have hmem : o ∈ row.filterMap (Value.originIf p) := List.mem_eraseDups.mp (h o hu)
    rw [List.filterMap_cons_some hu, List.filterMap_nil, eraseDups_concat, if_pos hmem, origins]

lemma Row.origins_concat_new (hp : p v = true) (h : o ∉ row.origins p) :
    (row ++ [Value.free v o]).origins p = row.origins p ++ [o] := by
  have hmem : o ∉ row.filterMap (Value.originIf p) := mt List.mem_eraseDups.mpr h
  have hu : (Value.free v o).originIf p = some o := if_pos hp
  rw [origins, List.filterMap_append, List.filterMap_cons_some hu, List.filterMap_nil,
    eraseDups_concat, if_neg hmem, origins]

end Origins

namespace Suffixes

variable {row : Row} {s : Suffixes} {o : ℤ}

lemma after_append (s : Suffixes) (row row' : Row) :
    s.after (row ++ row') = (s.after row).after row' := by
  induction row generalizing s with
  | nil => rfl
  | cons u row ih =>
    cases u with
    | state x d o => exact ih s
    | free v o => exact ih _

lemma mem_of_isSome_find?_after (h : ((({} : Suffixes).after row).find? o).isSome) :
    ∃ v, .free v o ∈ row := by
  induction row using List.reverseRecOn with
  | nil => cases h
  | append_singleton row u ih =>
    rw [after_append] at h
    cases u with
    | state x d o' =>
      obtain ⟨v, hv⟩ := ih h
      exact ⟨v, List.mem_append_left _ hv⟩
    | free w o' =>
      by_cases ho : o = o'
      · exact ⟨w, ho ▸ List.mem_append_right _ (List.mem_singleton_self _)⟩
      have hbefore : ((({} : Suffixes).after row).find? o).isSome := by
        change ((((({} : Suffixes).after row).assign w o').2).find? o).isSome = true at h
        cases hf : (({} : Suffixes).after row).find? o' with
        | some k => rwa [assign_of_some hf] at h
        | none => rwa [(assign_of_none hf).2.1, if_neg ho] at h
      obtain ⟨v, hv⟩ := ih hbefore
      exact ⟨v, List.mem_append_left _ hv⟩

/-- **Numbers in order.** The origins of the variables of one name have the numbers from 0 on, as
they first appear, and the next number is what the name has been given so far. -/
lemma after_inOrder (hsame : ∀ v w o, .free v o ∈ row → .free w o ∈ row → v = w) (name : String) :
    (({} : Suffixes).after row).count name = (row.origins (·.name == name)).length ∧
      (row.origins (·.name == name)).map (({} : Suffixes).after row).find? =
        (List.range (row.origins (·.name == name)).length).map some := by
  induction row using List.reverseRecOn with
  | nil => exact ⟨rfl, rfl⟩
  | append_singleton row u ih =>
    obtain ⟨hcount, hfind⟩ := ih fun v w o hv hw =>
      hsame v w o (List.mem_append_left _ hv) (List.mem_append_left _ hw)
    rw [after_append]
    cases u with
    | state x d o =>
      rw [Row.origins_concat_same (by simp [Value.originIf])]
      exact ⟨hcount, hfind⟩
    | free v o =>
      change ((({} : Suffixes).after row).assign v o).2.count name = _ ∧
        List.map ((({} : Suffixes).after row).assign v o).2.find? _ = _
      cases hf : (({} : Suffixes).after row).find? o with
      | some k =>
        -- the origin has appeared, and then for the same variable
        obtain ⟨w, hw⟩ := mem_of_isSome_find?_after (by rw [hf]; rfl)
        obtain rfl := hsame v w o (List.mem_append_right _ (List.mem_singleton_self _))
          (List.mem_append_left _ hw)
        rw [assign_of_some hf, Row.origins_concat_same]
        · exact ⟨hcount, hfind⟩
        · intro o' ho'
          obtain ⟨v', hv', hp⟩ := Value.originIf_eq_some.mp ho'
          cases hv'
          exact Row.mem_origins.mpr ⟨v, hw, hp⟩
      | none =>
        obtain ⟨-, hfind', hcount'⟩ := assign_of_none (v := v) hf
        have hnew : ∀ q, o ∉ Row.origins row q := by
          intro q ho
          obtain ⟨w, hw, -⟩ := Row.mem_origins.mp ho
          have := isSome_find?_after {} hw
          rw [hf] at this
          cases this
        -- what has a number keeps it
        have hold : ∀ l : List ℤ, o ∉ l → l.map ((({} : Suffixes).after row).assign v o).2.find? =
            l.map (({} : Suffixes).after row).find? := by
          intro l hl
          refine List.map_congr_left fun o' ho' => ?_
          rw [hfind', if_neg]
          rintro rfl
          exact hl ho'
        rw [hcount']
        by_cases hname : name = v.name
        · subst hname
          rw [if_pos rfl, Row.origins_concat_new (by simp) (hnew _),
            List.map_append, hold _ (hnew _),
            hfind, hcount, List.map_singleton, hfind', if_pos rfl, hcount, List.length_append,
            List.length_singleton, List.range_succ, List.map_append, List.map_singleton]
          exact ⟨rfl, rfl⟩
        · rw [if_neg hname, Row.origins_concat_same (by simp [Value.originIf, Ne.symm hname]),
            hold _ (hnew _)]
          exact ⟨hcount, hfind⟩

end Suffixes

/-! ### The line of a row -/

/-- Fields are the same exactly where the occurrence is, and the occurrences of each variable are
numbered as they first appear. -/
structure Row.Numbered (row : Row) : Prop where
  apart : ∀ v w o o', .free v o ∈ row → .free w o' ∈ row →
    ((Value.free v o).field row.suffix = (Value.free w o').field row.suffix ↔ v = w ∧ o = o')
  inOrder : ∀ v, (row.origins (· == v)).map row.suffix = List.range (row.origins (· == v)).length

namespace Row

variable {row : Row} {scope : Scope} {full : Prop} {ok : String → Prop}

lemma Proper.need_eq (h : row.Proper) (name : String) :
    row.need name = (row.origins (·.name == name)).length :=
  (Suffixes.after_inOrder h.same name).1

lemma Proper.map_suffix (h : row.Proper) (name : String) :
    (row.origins (·.name == name)).map row.suffix =
      List.range (row.origins (·.name == name)).length := by
  have hfind := congrArg (List.map (·.getD 0)) (Suffixes.after_inOrder h.same name).2
  change (row.origins (·.name == name)).map
    (fun o => ((({} : Suffixes).after row).find? o).getD 0) = _
  simpa [Function.comp_def] using hfind

/-- In a scope the variables of a row are told by their names. -/
lemma Within.origins_eq (h : row.Within full scope) (hscope : scope.WellNamed ok) {v : Variable}
    (hv : v ∈ scope.vars) : row.origins (· == v) = row.origins (·.name == v.name) := by
  rw [origins, origins]
  congr 1
  refine List.filterMap_congr fun u hu => ?_
  cases u with
  | state x d o => rfl
  | free w o =>
    have hiff : w = v ↔ w.name = v.name :=
      ⟨fun he => by rw [he], hscope.apart w (h.variable hu).mem v hv⟩
    simp [Value.originIf, hiff]

lemma Proper.numbered (h : row.Proper) (hin : row.Within full scope) (hscope : scope.WellNamed ok) :
    row.Numbered := by
  refine ⟨fun v w o o' hv hw => ⟨fun he => ?_, ?_⟩, fun v => ?_⟩
  · obtain ⟨hname, hsuffix⟩ := field_inj he
    obtain rfl := (h.suffix hv hw hname).2 hsuffix
    exact ⟨h.same v w o hv hw, rfl⟩
  · rintro ⟨rfl, rfl⟩
    rfl
  · by_cases hv : ∃ o, .free v o ∈ row
    · obtain ⟨o, ho⟩ := hv
      rw [hin.origins_eq hscope (hin.variable ho).mem]
      exact h.map_suffix v.name
    · have hnone : row.origins (· == v) = [] := by
        rw [List.eq_nil_iff_forall_not_mem]
        intro o ho
        obtain ⟨w, hw, he⟩ := mem_origins.mp ho
        rw [eq_of_beq he] at hw
        exact hv ⟨o, hw⟩
      rw [hnone]
      rfl

/-- The row uses the copies of a variable up to what it needs, and no others. -/
lemma Proper.exists_suffix_iff (h : row.Proper) (hin : row.Within full scope)
    (hscope : scope.WellNamed ok) {v : Variable} (hv : v ∈ scope.vars) (k : ℕ) :
    (∃ o, .free v o ∈ row ∧ row.suffix o = k) ↔ k < row.need v.name := by
  constructor
  · rintro ⟨o, ho, rfl⟩
    exact (h.suffix ho ho rfl).1
  · intro hk
    rw [h.need_eq] at hk
    have hmem : k ∈ (row.origins (·.name == v.name)).map row.suffix := by
      rw [h.map_suffix]
      exact List.mem_range.mpr hk
    obtain ⟨o, ho, hsuffix⟩ := List.mem_map.mp hmem
    obtain ⟨w, hw, hname⟩ := mem_origins.mp ho
    obtain rfl := hscope.apart w (hin.variable hw).mem v hv (eq_of_beq hname)
    exact ⟨o, hw, hsuffix⟩

end Row

/-! ### What is declared -/

def Variable.declaration (v : Variable) (k : ℕ) : String := s!"var {v.name}.{k} = {v.states.text}"

namespace Listing

variable {l : Listing} {scope : Scope}

def declared (copies : Variable → ℕ) (v : Variable) : List String :=
  (List.range (copies v)).map v.declaration

lemma filter_copies (l : Listing) (b : Bool) (vars : List Variable) :
    ((vars.flatMap l.copiesOf).filter fun p => p.1 == b).map (·.2) =
      (vars.filter (·.anonymous == b)).flatMap (declared fun v => l.copies.getD v.name 0) := by
  induction vars with
  | nil => rfl
  | cons v vars ih =>
    rw [List.flatMap_cons, List.filter_append, List.map_append, ih, List.filter_cons]
    by_cases hb : v.anonymous = b
    · have hall : (l.copiesOf v).filter (fun p => p.1 == b) = l.copiesOf v := by
        rw [List.filter_eq_self]
        intro q hq
        obtain ⟨k, -, rfl⟩ := List.mem_map.mp hq
        simpa using hb
      rw [hall, if_pos (by simpa using hb), List.flatMap_cons, copiesOf, List.map_map]
      rfl
    · have hnone : (l.copiesOf v).filter (fun p => p.1 == b) = [] := by
        rw [List.filter_eq_nil_iff]
        intro q hq
        obtain ⟨k, -, rfl⟩ := List.mem_map.mp hq
        simpa using hb
      rw [hnone, if_neg (by simpa using hb)]
      rfl

/-- The variables with a name come first, and both kinds keep their order. -/
lemma declarations_eq (l : Listing) (scope : Scope) : l.declarations scope =
    (scope.vars.toList.filter (!·.anonymous)).flatMap (declared fun v => l.copies.getD v.name 0) ++
      (scope.vars.toList.filter (·.anonymous)).flatMap
      (declared fun v => l.copies.getD v.name 0) := by
  have hfalse := l.filter_copies false scope.vars.toList
  have htrue := l.filter_copies true scope.vars.toList
  simp only [beq_false, beq_true] at hfalse htrue
  rw [← hfalse, ← htrue]
  rfl

end Listing

/-- A row renders an occurrence of the variable with the number. -/
def Variable.UsedIn (emits : Row → Prop) (v : Variable) (k : ℕ) : Prop :=
  ∃ row, emits row ∧ ∃ o, .free v o ∈ row ∧ row.suffix o = k

/-- The rows hold only these variables. The declarations are of copies of them, in their order but
with the named ones first. A copy is declared once if a row uses it, else not at all. -/
structure CompiledSection.DeclaresUsed (c : CompiledSection) (emits : Row → Prop)
    (vars : List Variable) : Prop where
  known : ∀ row, emits row → ∀ v o, .free v o ∈ row → v ∈ vars
  inOrder : ∃ copies, c.vars = (vars.filter (!·.anonymous)).flatMap (Listing.declared copies) ++
    (vars.filter (·.anonymous)).flatMap (Listing.declared copies)
  used : ∀ v ∈ vars, ∀ k, v.UsedIn emits k → c.vars.count (v.declaration k) = 1
  unused : ∀ v ∈ vars, ∀ k, ¬ v.UsedIn emits k → c.vars.count (v.declaration k) = 0

namespace Table

variable {pr : Proviso} {s : SectionState} {c : CompiledSection} {r : Registry} {scope : Scope}
  {parts : List (List Row)} {l : Listing} {t : Table} {seed : UInt64} {session session' : Session}

/-- A copy is declared exactly if a row uses it. -/
lemma Writes.lt_copies_iff (hs : s.Sound pr) (h : Writes s c r scope parts l) {v : Variable}
    (hv : v ∈ scope.vars) (k : ℕ) : k < l.copies.getD v.name 0 ↔
      ∃ row ∈ parts.flatten, ∃ o, .free v o ∈ row ∧ row.suffix o = k := by
  have hnamed := (hs.opens h.opens).1.named
  have hrow : ∀ row ∈ parts.flatten,
      ((∃ o, .free v o ∈ row ∧ row.suffix o = k) ↔ k < row.need v.name) := fun row hrow =>
    (h.fits hs hrow).proper.exists_suffix_iff (h.fits hs hrow).within hnamed hv k
  rw [← not_le, h.lists.copies]
  push Not
  exact exists_congr fun row => and_congr_right fun hmem => (hrow row hmem).symm

lemma Writes.declaration_mem_iff (h : Writes s c r scope parts l) {v : Variable}
    (hv : v ∈ scope.vars) (k : ℕ) : v.declaration k ∈ c.vars ↔ k < l.copies.getD v.name 0 := by
  rw [h.vars, Listing.mem_declarations]
  constructor
  · rintro ⟨w, hw, k', hk', he⟩
    obtain ⟨⟨hname, rfl⟩, -⟩ := copy_inj he
    rwa [hname]
  · intro hk
    exact ⟨v, hv, k, hk, rfl⟩

/-- **What is declared** are the copies that rows use. -/
lemma Writes.declaresUsed (hs : s.Sound pr) (h : Writes s c r scope parts l) :
    c.DeclaresUsed (· ∈ parts.flatten) scope.vars.toList := by
  refine ⟨fun row hrow v o hfree => ?_, ⟨_, h.vars.trans (l.declarations_eq scope)⟩,
    fun v hv k hused => ?_, fun v hv k hunused => ?_⟩
  · exact Array.mem_toList_iff.mpr ((h.fits hs hrow).within.variable hfree).mem
  · rw [Array.mem_toList_iff] at hv
    refine List.count_eq_one_of_mem ?_ ?_
    · rw [h.vars]
      exact l.nodup_declarations (hs.opens h.opens).1.named.distinct
    · exact (h.declaration_mem_iff hv k).mpr ((h.lt_copies_iff hs hv k).mpr hused)
  · rw [Array.mem_toList_iff] at hv
    rw [List.count_eq_zero, h.declaration_mem_iff hv, h.lt_copies_iff hs hv]
    exact hunused

/-- The section that a table compiles to is what finishing comes to once all its statements are
obeyed. -/
lemma compile_finishes (hr : session.registry.Reachable)
    (h : runFrom (t.compile seed) session = (.ok (.ok c), session')) : ∃ s s',
      runFrom (t.statements.forM obey) (t.start seed session) = (.ok ⟨⟩, s) ∧ s.Sound .none ∧
      Goes (t.start seed session) s (trace t.statements (t.start seed session)) [] ∧
      runFrom finish s = (.ok c, s') := by
  obtain ⟨_, _, _, _, _, -, hgoes, -⟩ := compile_writes hr (fun st _ => st.meets_none) h
  obtain ⟨s, hrun, hgoes⟩ :=
    (forM_obey_concludes (start_sound hr t seed) t.statements).of_passes hgoes.passes
  have hsound : (runFrom (t.statements.forM obey) (t.start seed session)).2.Sound .none :=
    forM_obey_sound (start_sound hr t seed) fun st _ => st.meets_none
  rw [hrun] at hsound
  have hnone : s.failures.toList.isEmpty = true := by
    rw [hgoes.brings.failures]
    rfl
  obtain ⟨c', s', -, -, -, -, hfinish, -⟩ := finish_ok hsound
  rw [runFrom_compile, runFrom_process, hrun] at h
  dsimp only at h
  rw [if_pos hnone, runFrom_map, hfinish] at h
  cases h
  exact ⟨s, s', hrun, hsound, hgoes, hfinish⟩

/-- It is written by the section in which the statements were obeyed. -/
lemma compile_run (hr : session.registry.Reachable)
    (h : runFrom (t.compile seed) session = (.ok (.ok c), session')) : ∃ s r scope parts l,
      runFrom (t.statements.forM obey) (t.start seed session) = (.ok ⟨⟩, s) ∧ s.Sound .none ∧
      Goes (t.start seed session) s (trace t.statements (t.start seed session)) [] ∧
      Writes s c r scope parts l := by
  obtain ⟨s, s', hrun, hsound, hgoes, hfinish⟩ := compile_finishes hr h
  obtain ⟨c', s₁, r, scope, parts, l, hfinish', -, -, -, hwrites⟩ := finish_ok hsound
  cases hfinish.symm.trans hfinish'
  exact ⟨s, r, scope, parts, l, hrun, hsound, hgoes, hwrites⟩

/-- **The copies that are used are declared.** The lines are the texts of the rows that transitions
are reduced to. In each of them a field stands for one occurrence, and the occurrences of a variable
are numbered as they first appear. All variables in these rows are in the scope once all statements
are obeyed, and what is declared are the copies that the rows use. -/
theorem compile_declares_used_copies (hr : session.registry.Reachable)
    (h : runFrom (t.compile seed) session = (.ok (.ok c), session')) :
    (∀ text, (∃ line ∈ c.lines, line.text = text) ↔
      ∃ row, t.Emits seed session c row ∧ row.text = text) ∧
    (∀ row, t.Emits seed session c row → row.Numbered) ∧
    ∃ s scope, runFrom (t.statements.forM obey) (t.start seed session) = (.ok ⟨⟩, s) ∧
      Opens s scope ∧ c.DeclaresUsed (t.Emits seed session c) scope.vars.toList := by
  obtain ⟨s, r, scope, parts, l, hrun, hs, hgoes, hwrites⟩ := compile_run hr h
  have hentries := hgoes.mem_entries hr
  have hemits : t.Emits seed session c = (· ∈ parts.flatten) :=
    funext fun row => propext (hwrites.emits_iff hentries row)
  refine ⟨hwrites.exists_line_iff hentries, fun row hrow => ?_, s, scope, hrun, hwrites.opens,
    hemits ▸ hwrites.declaresUsed hs⟩
  have hfits := hwrites.fits hs ((hwrites.emits_iff hentries row).mp hrow)
  exact hfits.proper.numbered hfits.within (hs.opens hwrites.opens).1.named

theorem compile_declares_used_copies_stream : ∃ turns c session',
    runFrom (stream.compile 0) {} = (.ok (.ok c), session') ∧
    stream.Makes 0 {} (flowed ⟨3, 1, 10⟩ turns) ∧
      (∀ text, (∃ line ∈ c.lines, line.text = text) ↔
        ∃ row, stream.Emits 0 {} c row ∧ row.text = text) ∧
      (∀ row, stream.Emits 0 {} c row → row.Numbered) ∧
      ∃ s scope, runFrom (stream.statements.forM obey) (stream.start 0 {}) = (.ok ⟨⟩, s) ∧
        Opens s scope ∧ c.DeclaresUsed (stream.Emits 0 {} c) scope.vars.toList := by
  have hreach : (Session.registry {}).Reachable := .start
  obtain ⟨turns, c, session', hrun, hmakes⟩ := compile_stream hreach 0
  exact ⟨turns, c, session', hrun, hmakes, compile_declares_used_copies hreach hrun⟩

end Table

end RuleTable
