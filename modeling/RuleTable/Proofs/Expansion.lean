import RuleTable.Proofs.Texts
import RuleTable.Transition.Rule

/-!
The rows of a layout stand for exactly the tuples that its slots take.

A layout whose slots are all known makes one row. One that must be split makes the rows of the
layouts in which a state of the variable is written into its slot, and these share out the choices
among them.
-/

namespace RuleTable

namespace Cell

variable {cells : List Cell} {choice : ℕ → ℕ} {i : ℕ} {x y : Stand} {values : Slots}
  {s s' : Scope} {span : Span} {tuple : List Int}

/-! ### A layout whose slots are all known -/

def Complete (values : Slots) (row : Row) : Prop := values.toList = row.map some

lemma exists_complete (h : ∀ i < values.size, (valueAt values i).isSome) :
    ∃ row, Complete values row := by
  have hall : ∀ v ∈ values.toList, v.isSome := by
    intro v hv
    obtain ⟨i, hi, rfl⟩ := List.mem_iff_getElem.mp hv
    have hi' : i < values.size := by simpa using hi
    have hk := h i hi'
    rw [show valueAt values (i : Int) = values[i]?.join from rfl,
      Array.getElem?_eq_getElem hi'] at hk
    exact hk
  refine ⟨values.toList.map (·.getD default), ?_⟩
  rw [Complete, List.map_map]
  refine (List.map_id _).symm.trans (List.map_congr_left fun v hv => ?_)
  obtain ⟨w, rfl⟩ := Option.isSome_iff_exists.mp (hall v hv)
  rfl

lemma Complete.filterMap {row : Row} (h : Complete values row) :
    values.toList.filterMap id = row := by
  rw [h, List.filterMap_map, Function.id_comp, List.filterMap_some]

lemma Complete.valueAt {row : Row} (h : Complete values row) (i : ℕ) :
    valueAt values i = row[i]? := by
  rw [show Cell.valueAt values (i : Int) = values[i]?.join from rfl, ← Array.getElem?_toList, h,
    List.getElem?_map]
  cases row[i]? <;> rfl

lemma Owns.unique {j : ℕ} {v : Variable} (h : Owns cells j v) (hx : Stands cells choice j x)
    (hy : Stands cells choice j y) : x = y :=
  ((h.2 _ _).mp hx).unique ((h.2 _ _).mp hy)

/-- The choice under which every variable takes the state that `pick` gives it. -/
def choiceOf (values : Slots) (pick : Int → Int) (j : ℕ) : ℕ :=
  match valueAt values j with
  | some (.free v _) => v.states.idxOf (pick j)
  | _ => 0

lemma exists_stands {row : Row} {v : Value} {pick : Int → Int} {t : Int} (hs : Sound cells values)
    (hrow : Complete values row) (hv : row[i]? = some v) (ht : v.Takes pick t) :
    ∃ x, Stands cells (choiceOf values pick) i x ∧ x.state = t := by
  have hi := hrow.valueAt i
  rw [hv] at hi
  have hh := hs.holds i v hi
  cases v with
  | state u drawn o => exact ⟨_, (hh.2 _ _).mpr rfl, ht.symm⟩
  | free w o =>
    obtain ⟨j, rfl, hj, he⟩ := hh
    obtain ⟨rfl, hmem⟩ := ht
    have hlt : w.states.idxOf (pick j) < w.states.length := List.idxOf_lt_length_iff.mpr hmem
    have hchoice : choiceOf values pick j % w.states.length = w.states.idxOf (pick j) := by
      rw [choiceOf, hs.origin i j w hi, Nat.mod_eq_of_lt hlt]
    refine ⟨⟨pick j, w.states, w.states.idxOf (pick j)⟩,
      (he _ _).mpr ((hj.2 _ _).mpr ⟨rfl, hchoice.symm, ?_⟩), rfl⟩
    rw [hchoice, List.getElem?_eq_getElem hlt, List.getElem_idxOf]

lemma Value.takes_of_stands {row : Row} {v : Value} (hs : Sound cells values)
    (hrow : Complete values row) (hlen : row.length = cells.length)
    (ht : Tuple cells choice tuple) {t : Int} (hv : row[i]? = some v) (hi : tuple[i]? = some t) :
    v.Takes (fun o => tuple.getD o.toNat 0) t := by
  obtain ⟨x, hx, rfl⟩ := ht.2 i t hi
  have hat := hrow.valueAt i
  rw [hv] at hat
  have hh := hs.holds i v hat
  cases v with
  | state u drawn o => rw [(hh.2 _ _).mp hx]; rfl
  | free w o =>
    obtain ⟨j, rfl, hj, he⟩ := hh
    have hxj := (he _ _).mp hx
    -- the variable's own slot takes the same state
    have hjlt : j < tuple.length := by
      have := (hrow.valueAt j).symm.trans (hs.origin i j w hat)
      rw [ht.1, ← hlen]
      exact (List.getElem?_eq_some_iff.mp this).1
    obtain ⟨y, hy, hyj⟩ := ht.2 j _ (List.getElem?_eq_getElem hjlt)
    refine ⟨?_, ?_⟩
    · rw [hj.unique hxj hy, hyj]
      simp [List.getD_eq_getElem?_getD, hjlt]
    · obtain ⟨-, -, hxt⟩ := (hj.2 _ _).mp hxj
      exact List.mem_of_getElem? hxt

/-- The row of the values stands for exactly the tuples of the layout. -/
lemma Complete.matches_iff {row : Row} (hrow : Complete values row) (hs : Sound cells values)
    (hsize : values.size = cells.length) :
    (∃ choice, Tuple cells choice tuple) ↔ row.Matches tuple := by
  have hlen : row.length = cells.length := by
    rw [← hsize, ← Array.length_toList, hrow, List.length_map]
  constructor
  · rintro ⟨choice, ht⟩
    refine ⟨fun o => tuple.getD o.toNat 0, List.forall₂_iff_get.mpr ⟨hlen.trans ht.1.symm, ?_⟩⟩
    intro i hi hi'
    exact Value.takes_of_stands hs hrow hlen ht (List.getElem?_eq_getElem hi)
      (List.getElem?_eq_getElem hi')
  · rintro ⟨pick, hp⟩
    refine ⟨choiceOf values pick, hp.length_eq.symm.trans hlen, fun i t ht => ?_⟩
    obtain ⟨hi', rfl⟩ := List.getElem?_eq_some_iff.mp ht
    have hi : i < row.length := hp.length_eq ▸ hi'
    exact exists_stands hs hrow (List.getElem?_eq_getElem hi)
      ((List.forall₂_iff_get.mp hp).2 i hi hi')

/-! ### Splitting -/

lemma tuple_set_iff {j : ℕ} {v : Variable} (hv : Owns cells j v) {k m : ℕ} {t : Int}
    (hm : m % v.states.length = k) (ht : v.states[k]? = some t) :
    Tuple (cells.set j (.literal t (some ⟨v, k⟩))) choice tuple ↔
      Tuple cells (Function.update choice j m) tuple := by
  simp only [Tuple, List.length_set, stands_set_iff hv hm ht]

/-- The layouts that a split makes share out the tuples. -/
lemma exists_tuple_split {j : ℕ} {v : Variable} (hv : Owns cells j v) (hj : j < cells.length) :
    (∃ choice, Tuple cells choice tuple) ↔ ∃ (k : ℕ) (t : Int), v.states[k]? = some t ∧
      ∃ choice, Tuple (cells.set j (.literal t (some ⟨v, k⟩))) choice tuple := by
  constructor
  · rintro ⟨choice, ht⟩
    obtain ⟨x, hx, -⟩ := ht.2 j _ (List.getElem?_eq_getElem (ht.1 ▸ hj))
    obtain ⟨-, -, hk⟩ := (hv.2 _ _).mp hx
    refine ⟨_, _, hk, choice, (tuple_set_iff hv rfl hk).mpr ?_⟩
    rwa [Function.update_eq_self]
  · rintro ⟨k, t, hk, choice, ht⟩
    have hm := Nat.mod_eq_of_lt (List.getElem?_eq_some_iff.mp hk).1
    exact ⟨_, (tuple_set_iff hv hm hk).mp ht⟩

lemma valueAt_replicate (n i : ℕ) : valueAt (Array.replicate n none) i = none := by
  rw [show valueAt (Array.replicate n none) (i : Int) = (Array.replicate n none)[i]?.join from rfl,
    Array.getElem?_replicate]
  split <;> rfl

lemma sound_replicate (cells : List Cell) (n : ℕ) : Sound cells (Array.replicate n none) :=
  ⟨fun i v h => by simp [valueAt_replicate] at h, fun i j v h => by simp [valueAt_replicate] at h,
    fun v h => by simp [valueAt_replicate] at h⟩

lemma proper_set {j k : ℕ} {v : Variable} {t : Int} (h : ∀ c ∈ cells, Proper c)
    (ht : v.states[k]? = some t) : ∀ c ∈ cells.set j (.literal t (some ⟨v, k⟩)), Proper c := by
  intro c hc
  rcases List.mem_or_eq_of_mem_set hc with hc | rfl
  · exact h c hc
  · exact ⟨Int.natCast_nonneg k, ht⟩

lemma exists_mem_flatten {α : Type} {A : α → Prop} {M : Row → Prop} {l : List α}
    {parts : List (List Row)} (h : List.Forall₂ (fun a rows => A a ↔ ∃ row ∈ rows, M row) l parts) :
    (∃ a ∈ l, A a) ↔ ∃ row ∈ parts.flatten, M row := by
  induction h with
  | nil => simp
  | cons ha _ ih =>
    simp only [List.mem_cons, List.flatten_cons, List.mem_append, or_and_right, exists_or,
      exists_eq_left, ha, ih]

/-- When all slots are settled, each of them has its value. -/
lemma settleAll_complete (h : runFrom (settleAll cells.toArray span (List.range cells.length)
      (Array.replicate cells.length none)) s = (.ok (.settled values), s')) :
    values.size = cells.length ∧ ∃ row, Complete values row := by
  have hI : Invariant cells (fun _ _ => True) (fun _ _ _ => True) :=
    ⟨fun _ _ _ _ _ _ => trivial, fun _ _ _ _ _ => trivial⟩
  obtain ⟨-, hall⟩ := hI.settleAll trivial Array.size_replicate h
  obtain ⟨hg, hknown⟩ := hall values rfl
  have hsize : values.size = cells.length := hg.size.trans Array.size_replicate
  exact ⟨hsize, exists_complete fun i hi => hknown i (List.mem_range.mpr (hsize ▸ hi))⟩

/-- **Branching is exact.** The induction is on the number of splits allowed: each split hands the
tuples down to the layouts it makes. -/
lemma branch_ok {splits : ℕ} {rows : List Row} (hproper : ∀ c ∈ cells, Proper c)
    (h : runFrom (branch span splits cells) s = (.ok rows, s')) :
    (∃ choice, Tuple cells choice tuple) ↔ ∃ row ∈ rows, row.Matches tuple := by
  induction splits generalizing cells s rows s' with
  | zero => cases h
  | succ splits ih =>
    rw [branch] at h
    obtain ⟨p, s₁, hp, h⟩ := runFrom_bind_ok.mp h
    obtain ⟨ha, -⟩ :=
      settleAll_ok hproper (sound_replicate cells cells.length) Array.size_replicate hp
    cases p with
    | settled values =>
      cases h
      obtain ⟨hsize, row, hrow⟩ := settleAll_complete hp
      rw [hrow.filterMap, hrow.matches_iff ha.1 hsize]
      simp
    | split v origin =>
      obtain ⟨j, rfl, hj, hv⟩ := ha
      obtain ⟨parts, s₂, hparts, h⟩ := runFrom_bind_ok.mp h
      cases h
      have hpart := runFrom_mapM_ok (P := fun (a : Int × ℕ) rows =>
          (∃ choice, Tuple (cells.set j (.literal a.1 (some ⟨v, a.2⟩))) choice tuple) ↔
            ∃ row ∈ rows, row.Matches tuple) (fun a hmem s rows s' hrun =>
          ih (proper_set hproper (List.mem_zipIdx_iff_getElem?.mp hmem)) hrun) hparts
      rw [exists_tuple_split hv hj, ← exists_mem_flatten hpart]
      simp only [Prod.exists, List.mem_zipIdx_iff_getElem?]
      exact exists_comm

/-- **Where a row comes from.** All slots of the layout are settled and have these values, or some
variable must be split and the row is one of the layout with one of its states in the variable's
slot. The scopes are the one that the layout starts from and one that its rows leave. -/
inductive RowOf (span : Span) : List Cell → Scope → Row → Scope → Prop
  | settled {cells : List Cell} {s s' : Scope} {values : Slots} {row : Row}
    (h : runFrom (settleAll cells.toArray span (List.range cells.length)
      (Array.replicate cells.length none)) s = (.ok (.settled values), s'))
    (hrow : Complete values row) : RowOf span cells s row s'
  | split {cells : List Cell} {s s₁ s₂ s₃ s' : Scope} {v : Variable}
      {origin t : ℤ} {k : ℕ} {row : Row}
    (h : runFrom (settleAll cells.toArray span (List.range cells.length)
      (Array.replicate cells.length none)) s = (.ok (.split v origin), s₁))
    (hk : v.states[k]? = some t) (hs : s₁.Extends s₂)
    (hrow : RowOf span (cells.set origin.toNat (.literal t (some ⟨v, k⟩))) s₂ row s₃)
    (hs' : s₃.Extends s') : RowOf span cells s row s'

lemma rowOf_of_mem_branch {splits : ℕ} {rows : List Row}
    (h : runFrom (branch span splits cells) s = (.ok rows, s')) :
    ∀ row ∈ rows, RowOf span cells s row s' := by
  induction splits generalizing cells s rows s' with
  | zero => cases h
  | succ splits ih =>
    rw [branch] at h
    obtain ⟨p, s₁, hp, h⟩ := runFrom_bind_ok.mp h
    intro row hmem
    cases p with
    | settled values =>
      cases h
      obtain ⟨-, row', hrow⟩ := settleAll_complete hp
      rw [hrow.filterMap] at hmem
      exact .settled hp (List.mem_singleton.mp hmem ▸ hrow)
    | split v origin =>
      obtain ⟨parts, s₂, hparts, h⟩ := runFrom_bind_ok.mp h
      cases h
      obtain ⟨part, hpart, hrow⟩ := List.mem_flatten.mp hmem
      obtain ⟨⟨t, k⟩, htk, s₃, s₄, hs, hrun, hs'⟩ :=
        runFrom_mapM_mem (R := Scope.Extends) (fun _ _ => branch_steps _ _ _) hparts hpart
      exact .split hp (List.mem_zipIdx_iff_getElem?.mp htk) hs (ih hrun row hrow) hs'

end Cell

/-! ### Distinct rows -/

/-- What the rows kept so far and the texts seen so far have to do with each other. -/
def Row.Kept (seen : Std.HashSet String) (out : Array Row) : Prop :=
  ∀ k, k ∈ seen ↔ ∃ row ∈ out, row.key = k

lemma Row.kept_empty : Row.Kept ∅ #[] := by simp [Row.Kept]

lemma Row.Kept.push {seen : Std.HashSet String} {out : Array Row}
    (h : Row.Kept seen out) (r : Row) :
    Row.Kept (seen.insert r.key) (out.push r) := by
  intro k
  rw [Std.HashSet.mem_insert, h k]
  simp only [Array.mem_push, beq_iff_eq, or_and_right, exists_or, exists_eq_left]
  exact or_comm

lemma Row.distinct_fold {seen : Std.HashSet String} {out : Array Row} (h : Row.Kept seen out)
    (rows : List Row) :
    let kept := (rows.foldl (fun (p : Std.HashSet String × Array Row) row =>
      if p.1.contains row.key then p else (p.1.insert row.key, p.2.push row)) (seen, out)).2
    (∀ row ∈ kept, row ∈ out ∨ row ∈ rows) ∧
      ∀ row, row ∈ out ∨ row ∈ rows → ∃ row' ∈ kept, row'.key = row.key := by
  induction rows generalizing seen out with
  | nil => exact ⟨fun row hrow => .inl hrow, fun row hrow => ⟨row, by simpa using hrow, rfl⟩⟩
  | cons r rows ih =>
    simp only [List.foldl_cons]
    split
    · next hseen =>
      obtain ⟨hsub, hcov⟩ := ih h
      refine ⟨fun row hrow => ?_, fun row hrow => ?_⟩
      · exact (hsub row hrow).imp_right (List.mem_cons_of_mem _)
      · obtain ⟨r', hr', hkey⟩ := (h r.key).mp hseen
        rcases hrow with hrow | hrow
        · exact hcov row (.inl hrow)
        rcases List.mem_cons.mp hrow with rfl | hrow
        · exact hkey ▸ hcov r' (.inl hr')
        · exact hcov row (.inr hrow)
    · obtain ⟨hsub, hcov⟩ := ih (h.push r)
      refine ⟨fun row hrow => ?_, fun row hrow => hcov row ?_⟩
      · have := hsub row hrow
        rw [Array.mem_push] at this
        rw [List.mem_cons]
        tauto
      · rw [List.mem_cons] at hrow
        rw [Array.mem_push]
        tauto

lemma Row.mem_of_mem_distinct {rows : List Row} {row : Row} (h : row ∈ Row.distinct rows) :
    row ∈ rows := by
  have hfold := (Row.distinct_fold Row.kept_empty rows).1 row
  simpa using hfold (by simpa [Row.distinct] using h)

lemma Row.exists_mem_distinct {rows : List Row} {row : Row} (h : row ∈ rows) :
    ∃ row' ∈ Row.distinct rows, row'.key = row.key := by
  have hfold := (Row.distinct_fold Row.kept_empty rows).2 row (.inr h)
  simpa [Row.distinct] using hfold

/-- Leaving out rows with the text of another loses no tuple, if the rows have one shape. -/
lemma Row.exists_distinct_matches {rows : List Row} (h : rows.Pairwise Row.Alike)
    {tuple : List Int} :
    (∃ row ∈ Row.distinct rows, row.Matches tuple) ↔ ∃ row ∈ rows, row.Matches tuple := by
  constructor
  · rintro ⟨row, hrow, hm⟩
    exact ⟨row, mem_of_mem_distinct hrow, hm⟩
  · rintro ⟨row, hrow, hm⟩
    obtain ⟨row', hrow', hkey⟩ := exists_mem_distinct hrow
    by_cases he : row = row'
    · exact ⟨row', hrow', he ▸ hm⟩
    · have halike := h.forall hrow (mem_of_mem_distinct hrow') he
      exact ⟨row', hrow', matches_of_same (halike.same hkey.symm) hm⟩

/-! ### Layouts of transitions -/

namespace Rule

variable {nb : Neighborhood} {s s' : Scope}

lemma proper_literal (t : Int) : Cell.Proper (.literal t none) := ⟨le_rfl, rfl⟩

lemma proper_of_ref {c : Cell} {ref : ℤ} (h : c.ref? = some ref) : c.Proper := by
  cases c with
  | literal t drawn => cases h
  | _ => trivial

lemma freeCell_ok {v : Variable} {result : Bool} {e : Expr} {c : Cell}
    (h : freeCell v result e = .ok c) : c = .free v := by
  unfold freeCell at h
  split at h
  · obtain ⟨_, _, h⟩ := outcome_bind_ok.mp h
    simp at h
  · cases h
    rfl

/-- The expression is neither a state, a name nor a reference, so it is worked out to a list. -/
def listed : Expr → Bool
  | .int _ _ | .ref _ | .map _ _ _ | .refOp _ _ _ _ | .name _ _ => false
  | _ => true

/-- The cell that an expression comes to, and the scope it leaves. -/
inductive CellOf (nb : Neighborhood) (result : Bool) (s : Scope) : Expr → Cell → Scope → Prop
  | int {raw : String} {span : Span} {t : ℤ} (ht : s.state raw span = .ok t) :
    CellOf nb result s (.int raw span) (.literal t none) s
  | ref {r : Ref} {k : ℕ} (hk : nb.slot r = .ok k) :
    CellOf nb result s (.ref r) (.binding k r.span) s
  | map {r : Ref} {image : Expr} {span : Span} {k : ℕ} {p : StateList × Bool}
    (hk : nb.slot r = .ok k) (hp : s.evalTarget image = .ok p) :
    CellOf nb result s (.map r image span) (.mapping k p.1 p.2 span) s
  | shift {r : Ref} {arg : Expr} {span : Span} {k : ℕ} {n : ℤ}
    (hk : nb.slot r = .ok k) (hn : Scope.count arg = .ok n) :
    CellOf nb result s (.refOp r .shift arg span) (.operation k .shift (Int64.ofInt n) [] span) s
  | minus {r : Ref} {arg : Expr} {span : Span} {k : ℕ} {l : StateList}
    (hk : nb.slot r = .ok k) (hl : s.eval arg = .ok l) :
    CellOf nb result s (.refOp r .minus arg span) (.operation k .minus 0 l span) s
  | name {ident : String} {span : Span} {v : Variable} (hv : s.lookup ident = some v)
    (hf : freeCell v result (.name ident span) = .ok (.free v)) :
    CellOf nb result s (.name ident span) (.free v) s
  | single {e : Expr} {l : StateList} {t : ℤ} (he : listed e) (hl : s.eval e = .ok l)
    (hu : l.unique? = some t) : CellOf nb result s e (.literal t none) s
  | several {e : Expr} {l : StateList} {v : Variable} {s' : Scope} (he : listed e)
    (hl : s.eval e = .ok l) (hu : l.unique? = none)
    (hv : runFrom (Scope.anonymous l) s = (.ok v, s')) (hf : freeCell v result e = .ok (.free v)) :
    CellOf nb result s e (.free v) s'

lemma cellOf_of_listed {result : Bool} {e : Expr} {c : Cell} {l : StateList} (he : listed e)
    (hl : s.eval e = .ok l) (h : runFrom (match l.unique? with
      | some state => return .literal state none
      | none => do freeCell (← Scope.anonymous l) result e) s = (.ok c, s')) :
    CellOf nb result s e c s' := by
  split at h
  next t hu =>
    cases h
    exact .single he hl hu
  next hu =>
    obtain ⟨v, s₁, hv, h⟩ := runFrom_bind_ok.mp h
    rw [runFrom_outcome, Prod.mk.injEq] at h
    obtain ⟨hf, rfl⟩ := h
    obtain rfl := freeCell_ok hf
    exact .several he hl hu hv hf

lemma cellOf_of_ok {result : Bool} {e : Expr} {c : Cell}
    (h : runFrom (cell nb result e) s = (.ok c, s')) : CellOf nb result s e c s' := by
  obtain ⟨s₁, _, hs, h⟩ := runFrom_bind_ok.mp h
  cases hs
  cases e with
  | int raw span =>
    obtain ⟨t, ht, h⟩ := runFrom_outcome_bind_ok.mp h
    cases h
    exact .int ht
  | ref r =>
    obtain ⟨k, hk, h⟩ := runFrom_outcome_bind_ok.mp h
    cases h
    exact .ref hk
  | map r image span =>
    obtain ⟨k, hk, h⟩ := runFrom_outcome_bind_ok.mp h
    obtain ⟨p, hp, h⟩ := runFrom_outcome_bind_ok.mp h
    cases h
    exact .map hk hp
  | refOp r op arg span =>
    obtain ⟨k, hk, h⟩ := runFrom_outcome_bind_ok.mp h
    cases op with
    | shift =>
      obtain ⟨n, hn, h⟩ := runFrom_outcome_bind_ok.mp h
      cases h
      exact .shift hk hn
    | minus =>
      obtain ⟨l, hl, h⟩ := runFrom_outcome_bind_ok.mp h
      cases h
      exact .minus hk hl
    | times | cycle | other => cases h
  | name ident span =>
    dsimp only at h
    split at h
    · next v hv =>
      rw [runFrom_outcome, Prod.mk.injEq] at h
      obtain ⟨hf, rfl⟩ := h
      obtain rfl := freeCell_ok hf
      exact .name hv hf
    · cases h
  | set | range | binary | complement | missing =>
    obtain ⟨l, hl, h⟩ := runFrom_outcome_bind_ok.mp h
    exact cellOf_of_listed rfl hl h

/-- **A cell** is worked out as described. -/
lemma cell_ok_iff {result : Bool} {e : Expr} {c : Cell} :
    runFrom (cell nb result e) s = (.ok c, s') ↔ CellOf nb result s e c s' := by
  refine ⟨cellOf_of_ok, fun h => ?_⟩
  cases h with
  | int ht => simp [cell, runFrom_bind, runFrom_map, Except.map, ht]
  | ref hk => simp [cell, runFrom_bind, runFrom_map, Except.map, hk]
  | map hk hp => simp [cell, runFrom_bind, runFrom_map, Except.map, hk, hp]
  | shift hk hn => simp [cell, runFrom_bind, runFrom_map, Except.map, hk, hn]
  | minus hk hl => simp [cell, runFrom_bind, runFrom_map, Except.map, hk, hl]
  | name hv hf => simp [cell, runFrom_bind, hv, hf]
  | single he hl hu =>
    cases e with
    | int | ref | map | refOp | name => cases he
    | set | range | binary | complement | missing => simp [cell, runFrom_bind, hl, hu]
  | several he hl hu hv hf =>
    cases e with
    | int | ref | map | refOp | name => cases he
    | set | range | binary | complement | missing => simp [cell, runFrom_bind, hl, hu, hv, hf]

/-- What a cell of a transition is: a state by itself, a variable of the scope, or something that
refers to a slot which the neighborhood has. -/
def Written (nb : Neighborhood) (s : Scope) (c : Cell) : Prop :=
  (∃ t, c = .literal t none) ∨ (∃ v ∈ s.vars, c = .free v) ∨
    ∃ (r : Ref) (k : ℕ), nb.slot r = .ok k ∧ c.ref? = some (k : ℤ)

lemma cell_written {result : Bool} {e : Expr} {c : Cell}
    (h : runFrom (cell nb result e) s = (.ok c, s')) : Written nb s' c := by
  cases cell_ok_iff.mp h with
  | int | single => exact .inl ⟨_, rfl⟩
  | ref hk | map hk | shift hk | minus hk => exact .inr (.inr ⟨_, _, hk, rfl⟩)
  | name hv => exact .inr (.inl ⟨_, Array.mem_of_find?_eq_some hv, rfl⟩)
  | several _ _ _ hv =>
    exact .inr (.inl ⟨_, Array.mem_of_find?_eq_some (Scope.anonymous_ok hv), rfl⟩)

/-- A transition writes states without a variable to be drawn from. -/
lemma cell_proper {result : Bool} {e : Expr} {c : Cell}
    (h : runFrom (cell nb result e) s = (.ok c, s')) : c.Proper := by
  obtain ⟨t, rfl⟩ | ⟨v, -, rfl⟩ | ⟨r, k, -, hr⟩ := cell_written h
  · exact proper_literal t
  · trivial
  · exact proper_of_ref hr

lemma napkin_proper {span : Span} {terms : List Term} {given cells : List Cell}
    (hg : ∀ c ∈ given, c.Proper) (h : runFrom (napkin nb span terms given) s = (.ok cells, s')) :
    ∀ c ∈ cells, c.Proper := by
  induction terms generalizing given s with
  | nil =>
    rw [napkin] at h
    split at h
    · cases h
    · cases h
      exact hg
  | cons term terms ih =>
    rw [napkin] at h
    obtain ⟨last, s₁, -, h⟩ := runFrom_bind_ok.mp h
    split at h
    · cases h
    obtain ⟨c, s₂, hc, h⟩ := runFrom_bind_ok.mp h
    refine ih (fun c' hc' => ?_) h
    rcases List.mem_append.mp hc' with hc' | hc'
    · exact hg c' hc'
    · rw [List.eq_of_mem_replicate hc']
      exact cell_proper hc

@[simp] lemma runFrom_onScope {α : Type} (act : ScopeM α) (w : Workspace) :
    runFrom (WorkspaceM.onScope act) w =
      ((runFrom act w.scope).1, { w with scope := (runFrom act w.scope).2 }) := rfl

lemma onScope_ok {α : Type} {act : ScopeM α} {w w' : Workspace} {a : α}
    (h : runFrom (WorkspaceM.onScope act) w = (.ok a, w')) :
    runFrom act w.scope = (.ok a, w'.scope) := by
  rw [runFrom_onScope, Prod.mk.injEq] at h
  obtain ⟨h, rfl⟩ := h
  exact Prod.ext h rfl

lemma layOut_proper {symmetry : Symmetry} {t : Transition} {w w' : Workspace} {rule : Rule}
    (h : runFrom (layOut nb symmetry t) w = (.ok rule, w')) : ∀ c ∈ rule.cells, c.Proper := by
  obtain ⟨initial, w₂, hi, h⟩ := runFrom_bind_ok.mp h
  obtain ⟨neighbors, w₃, hn, h⟩ := runFrom_bind_ok.mp h
  obtain ⟨result, w₄, hr, h⟩ := runFrom_bind_ok.mp h
  obtain ⟨auxiliaries, w₅, -, h⟩ := runFrom_bind_ok.mp h
  cases h
  intro c hc
  simp only [List.cons_append, List.mem_cons, List.mem_append, List.not_mem_nil, or_false] at hc
  rcases hc with rfl | hc | rfl
  · exact cell_proper (onScope_ok hi)
  · exact napkin_proper (by simp) (onScope_ok hn) c hc
  · exact cell_proper (onScope_ok hr)

lemma build_ok {nb : Option Neighborhood} {symmetry : Option Symmetry} {t : Transition}
    {w w' : Workspace} {rule : Rule} (h : runFrom (build nb symmetry t) w = (.ok rule, w')) :
    ∃ nb' symmetry' w₁, nb = some nb' ∧ runFrom (layOut nb' symmetry' t) w₁ = (.ok rule, w') ∧
      ((symmetry = some symmetry' ∧ w₁ = w) ∨ (symmetry = none ∧
        runFrom (WorkspaceM.onRegistry (Registry.none nb')) w = (.ok symmetry', w₁))) := by
  cases nb with
  | none => cases h
  | some nb =>
    cases symmetry with
    | some symmetry => exact ⟨nb, symmetry, w, rfl, h, .inl ⟨rfl, rfl⟩⟩
    | none =>
      obtain ⟨symmetry, w₁, hn, h⟩ := runFrom_bind_ok.mp h
      exact ⟨nb, symmetry, w₁, rfl, h, .inr ⟨rfl, hn⟩⟩

/-- **Expansion is exact.** The rows of a transition stand for the tuples that its slots take under
all choices, for these and no others: a choice gives an index to every free slot, a row lets every
occurrence of a variable take any of the variable's states. -/
theorem exists_tuple_iff_exists_row {nb : Option Neighborhood} {symmetry : Option Symmetry}
    {t : Transition} {w w' : Workspace} {rule : Rule} {rows : List Row} {tuple : List Int}
    (hbuild : runFrom (build nb symmetry t) w = (.ok rule, w'))
    (hexpand : runFrom (Cell.expand rule.cells rule.span) s = (.ok rows, s')) :
    (∃ choice, Cell.Tuple rule.cells choice tuple) ↔ ∃ row ∈ rows, row.Matches tuple := by
  obtain ⟨all, s₁, hall, h⟩ := runFrom_bind_ok.mp hexpand
  cases h
  rw [Row.exists_distinct_matches (Cell.branch_pairwise hall)]
  obtain ⟨_, _, _, -, hlaid, -⟩ := build_ok hbuild
  exact Cell.branch_ok (layOut_proper hlaid) hall

/-! A transition in which one variable is split and another is not. -/

def ternary : Variable := { name := "any", states := [0, 1, 2] }

def ternaryScope : Scope := { stateCount := 3, vars := #[ternary], names := .ofSeed 0 }

def asymmetric : Symmetry :=
  { name := "none", neighborhood := .oneDimensional, presentation := .generated [] }

def mixed : Transition where
  initial := .name "any" .nowhere
  napkin := [
    { value := .map ⟨"C", .nowhere⟩
        (.set [.int "2" .nowhere, .int "1" .nowhere] true .nowhere) .nowhere },
    { value := .name "any" .nowhere }]
  result := .refOp ⟨"W", .nowhere⟩ .shift (.int "1" .nowhere) .nowhere
  auxiliaries := []
  span := .nowhere

def mixedRule : Rule where
  neighborhood := .oneDimensional
  cells := [.free ternary, .mapping 0 [2, 1] true .nowhere, .free ternary,
    .operation 1 .shift 1 [] .nowhere]
  symmetry := asymmetric
  auxiliaries := []
  span := .nowhere

def mixedRow (k state image next : Int) (index : Int) : Row :=
  [.state state (some ⟨ternary, k⟩) 0,
    .state image (some ⟨{ name := "", states := [2, 1], anonymous := true }, index⟩) 1,
    .free ternary 2,
    .state next (some ⟨{ name := "", states := [1, 2], anonymous := true }, index⟩) 3]

theorem exists_tuple_iff_exists_row_mixed :
    runFrom (build (some .oneDimensional) (some asymmetric) mixed) { scope := ternaryScope } =
        (.ok mixedRule, { scope := ternaryScope }) ∧
      runFrom (Cell.expand mixedRule.cells mixedRule.span) ternaryScope =
        (.ok [mixedRow 0 0 2 1 0, mixedRow 1 1 1 2 1, mixedRow 2 2 1 2 1], ternaryScope) ∧
      ((∃ choice, Cell.Tuple mixedRule.cells choice [2, 1, 0, 2]) ↔
        ∃ row ∈ [mixedRow 0 0 2 1 0, mixedRow 1 1 1 2 1, mixedRow 2 2 1 2 1],
          row.Matches [2, 1, 0, 2]) := by
  have hbuild : runFrom (build (some .oneDimensional) (some asymmetric) mixed)
      { scope := ternaryScope } = (.ok mixedRule, { scope := ternaryScope }) := by cbv
  have hexpand : runFrom (Cell.expand mixedRule.cells mixedRule.span) ternaryScope =
      (.ok [mixedRow 0 0 2 1 0, mixedRow 1 1 1 2 1, mixedRow 2 2 1 2 1], ternaryScope) := by cbv
  exact ⟨hbuild, hexpand, exists_tuple_iff_exists_row hbuild hexpand⟩

end Rule

end RuleTable
