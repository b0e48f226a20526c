import RuleTable.Proofs.Branching

/-!
Resolving and branching come to an end.

The runs described here have no bounds: they make as many calls as it takes. Resolving ends because
the slots that wait for each other are different ones. Branching ends because the slot into which a
state is written held a variable or a difference: a value is a variable only if it comes from such a
slot, however many bindings lie between, and its origin is that slot.
-/

namespace RuleTable.Cell

variable {cells : List Cell} {span : Span} {path visits : List ℕ} {values : Slots} {i k : ℕ}
  {s s' : Scope} {w : Variable} {origin : ℤ}

/-! ### Runs without bounds -/

/-- Goes on where a run has come to values. -/
def proceed (next : Slots → ScopeM Progress) :
    Except Stop Progress × Scope → Except Stop Progress × Scope
  | (.ok (.settled values), s) => runFrom (next values) s
  | r => r

/-- What resolving slot `i` comes to while the slots of `path` wait, and the slots it visits: each
of these waits for the next. A known slot is not visited, nor is one that waits. -/
inductive Settles (cells : List Cell) (span : Span) (values : Slots) (s : Scope) :
    List ℕ → ℕ → List ℕ → Except Stop Progress × Scope → Prop
  | known {path : List ℕ} {i : ℕ} (hk : (valueAt values i).isSome) :
    Settles cells span values s path i [] (.ok (.settled values), s)
  | circular {path : List ℕ} {i : ℕ} (hn : valueAt values i = none) (hi : i ∈ path) :
    Settles cells span values s path i [] (.error (.refused
      ((Failure.bare (.circularReference i)).locate .undefinedReference span)), s)
  | own {path : List ℕ} {i : ℕ} {c : Cell} (hn : valueAt values i = none) (hi : i ∉ path)
    (hc : cells[i]? = some c) (hr : c.ref? = none) : Settles cells span values s path i [i]
      (runFrom (settleCell (cells.length - 1) span values i c) s)
  | outside {path : List ℕ} {i : ℕ} {c : Cell} {ref : ℤ} (hn : valueAt values i = none)
    (hi : i ∉ path) (hc : cells[i]? = some c) (hr : c.ref? = some ref)
    (hout : ref < 0 ∨ (cells.length : ℤ) - 1 ≤ ref) : Settles cells span values s path i [i]
      (.error (.refused (.of span (.notANapkinSlot ref))), s)
  | refers {path visits : List ℕ} {i j : ℕ} {c : Cell} {r : Except Stop Progress × Scope}
    (hn : valueAt values i = none) (hi : i ∉ path) (hc : cells[i]? = some c)
    (hr : c.ref? = some (j : ℤ)) (hin : j + 1 < cells.length)
    (hj : Settles cells span values s (i :: path) j visits r) :
    Settles cells span values s path i (i :: visits)
      (proceed (fun values => settleCell (cells.length - 1) span values i c) r)

/-- What resolving slots in turn comes to. -/
inductive SettlesAll (cells : List Cell) (span : Span) :
    List ℕ → Slots → Scope → Except Stop Progress × Scope → Prop
  | nil {values : Slots} {s : Scope} : SettlesAll cells span [] values s (.ok (.settled values), s)
  | halts {i : ℕ} {rest visits : List ℕ} {values : Slots} {s : Scope}
    {r : Except Stop Progress × Scope} (hi : Settles cells span values s [] i visits r)
    (hr : ∀ values' s', r ≠ (.ok (.settled values'), s')) :
    SettlesAll cells span (i :: rest) values s r
  | next {i : ℕ} {rest visits : List ℕ} {values values' : Slots} {s s' : Scope}
    {r : Except Stop Progress × Scope}
    (hi : Settles cells span values s [] i visits (.ok (.settled values'), s'))
    (hrest : SettlesAll cells span rest values' s' r) : SettlesAll cells span (i :: rest) values s r

def Resolves (cells : List Cell) (span : Span) (s : Scope)
    (r : Except Stop Progress × Scope) : Prop :=
  SettlesAll cells span (List.range cells.length) (Array.replicate cells.length none) s r

def substituted (cells : List Cell) (v : Variable) (k : ℕ) : List (List Cell) :=
  v.states.zipIdx.map fun (t, index) => cells.set k (.literal t (some ⟨v, index⟩))

mutual

/-- What branching on a layout comes to. -/
inductive Branches (span : Span) : List Cell → Scope → Except Stop (List Row) × Scope → Prop
  | stopped {cells : List Cell} {s s' : Scope} {e : Stop}
    (h : Resolves cells span s (.error e, s')) : Branches span cells s (.error e, s')
  | row {cells : List Cell} {s s' : Scope} {values : Slots}
    (h : Resolves cells span s (.ok (.settled values), s')) :
    Branches span cells s (.ok [values.toList.filterMap id], s')
  | split {cells : List Cell} {s s₁ : Scope} {v : Variable} {origin : ℤ}
    {r : Except Stop (List (List Row)) × Scope}
      (h : Resolves cells span s (.ok (.split v origin), s₁))
    (hparts : BranchesAll span (substituted cells v origin.toNat) s₁ r) :
    Branches span cells s (r.1.map List.flatten, r.2)

/-- What branching on layouts in turn comes to. -/
inductive BranchesAll (span : Span) :
    List (List Cell) → Scope → Except Stop (List (List Row)) × Scope → Prop
  | nil {s : Scope} : BranchesAll span [] s (.ok [], s)
  | stopped {cells : List Cell} {rest : List (List Cell)} {s s' : Scope} {e : Stop}
    (h : Branches span cells s (.error e, s')) : BranchesAll span (cells :: rest) s (.error e, s')
  | cons {cells : List Cell} {rest : List (List Cell)} {s s₁ : Scope} {rows : List Row}
    {r : Except Stop (List (List Row)) × Scope} (h : Branches span cells s (.ok rows, s₁))
    (hrest : BranchesAll span rest s₁ r) :
    BranchesAll span (cells :: rest) s (r.1.map (rows :: ·), r.2)

end

/-! ### Resolving -/

lemma Settles.unique {visits' : List ℕ} {r r' : Except Stop Progress × Scope}
    (h : Settles cells span values s path i visits r)
    (h' : Settles cells span values s path i visits' r') : visits = visits' ∧ r = r' := by
  induction h generalizing visits' r' with
  | known hk | circular hn hi | own hn hi hc hr => cases h' <;> simp_all
  | outside hn hi hc hr hout =>
    cases h' with
    | refers _ _ hc' hr' hin' =>
      obtain rfl := Option.some.inj (hc.symm.trans hc')
      obtain rfl := Option.some.inj (hr.symm.trans hr')
      omega
    | _ => simp_all
  | refers hn hi hc hr hin hj ih =>
    cases h' with
    | outside _ _ hc' hr' hout' =>
      obtain rfl := Option.some.inj (hc.symm.trans hc')
      obtain rfl := Option.some.inj (hr.symm.trans hr')
      omega
    | refers _ _ hc' hr' _ hj' =>
      obtain rfl := Option.some.inj (hc.symm.trans hc')
      obtain rfl := Int.ofNat_inj.mp (Option.some.inj (hr.symm.trans hr'))
      obtain ⟨rfl, rfl⟩ := ih hj'
      exact ⟨rfl, rfl⟩
    | _ => simp_all

lemma SettlesAll.unique {slots : List ℕ} {r r' : Except Stop Progress × Scope}
    (h : SettlesAll cells span slots values s r) (h' : SettlesAll cells span slots values s r') :
    r = r' := by
  induction h with
  | nil => cases h'; rfl
  | halts hi hr =>
    cases h' with
    | halts hi' _ => exact (hi.unique hi').2
    | next hi' _ => exact absurd (hi.unique hi').2 (hr _ _)
  | next hi _ ih =>
    cases h' with
    | halts hi' hr' => exact absurd (hi'.unique hi).2 (hr' _ _)
    | next hi' hrest' =>
      cases (hi.unique hi').2
      exact ih hrest'

/-- No slot is visited that waits, nor twice. -/
lemma Settles.nodup {r : Except Stop Progress × Scope}
    (h : Settles cells span values s path i visits r) (hpath : path.Nodup) :
    (visits ++ path).Nodup := by
  induction h with
  | known | circular => exact hpath
  | own _ hi | outside _ hi => exact List.nodup_cons.mpr ⟨hi, hpath⟩
  | refers _ hi _ _ _ _ ih => exact List.nodup_middle.mp (ih (List.nodup_cons.mpr ⟨hi, hpath⟩))

lemma Settles.lt {r : Except Stop Progress × Scope}
    (h : Settles cells span values s path i visits r) : ∀ j ∈ visits, j < cells.length := by
  induction h with
  | known | circular => simp
  | own _ _ hc | outside _ _ hc => simpa using (List.getElem?_eq_some_iff.mp hc).1
  | refers _ _ hc _ _ _ ih => simpa using ⟨(List.getElem?_eq_some_iff.mp hc).1, ih⟩

lemma runFrom_andThen (x : ScopeM Progress) (next : Slots → ScopeM Progress) (s : Scope) :
    runFrom (x >>= fun p => p.andThen next) s = proceed next (runFrom x s) := by
  rw [runFrom_bind]
  rcases runFrom x s with ⟨e | p, s₁⟩
  · rfl
  · cases p <;> rfl

/-- **A slot.** Those that wait are different slots, so one more than there are slots is never
needed. -/
lemma settles_settle {depth : ℕ} (hi : i < cells.length) (hpath : path.Nodup)
    (hin : ∀ j ∈ path, j < cells.length) (hdepth : cells.length + 1 ≤ depth + path.length) :
    ∃ visits, Settles cells span values s path i visits
      (runFrom (settle cells.toArray span depth path values i) s) := by
  induction depth generalizing path i with
  | zero =>
    -- more slots would wait than there are
    have hlen := (List.subperm_of_subset hpath fun j hj => List.mem_range.mpr (hin j hj)).length_le
    rw [List.length_range] at hlen
    omega
  | succ depth ih =>
    rw [settle]
    by_cases hknown : (valueAt values i).isSome
    · rw [if_pos hknown]
      exact ⟨_, .known hknown⟩
    have hn : valueAt values i = none := by simpa using hknown
    rw [if_neg hknown]
    by_cases hwaits : path.contains i
    · rw [if_pos hwaits]
      exact ⟨_, .circular hn (by simpa using hwaits)⟩
    have hnew : i ∉ path := by simpa using hwaits
    have hc : cells[i]? = some cells[i] := List.getElem?_eq_getElem hi
    rw [if_neg hwaits]
    simp only [List.getElem?_toArray, List.size_toArray, hc]
    cases hr : cells[i].ref? with
    | none => exact ⟨_, .own hn hnew hc hr⟩
    | some ref =>
      by_cases hout : ref < 0 ∨ (cells.length : ℤ) - 1 ≤ ref
      · simp only [if_pos hout]
        exact ⟨_, .outside hn hnew hc hr hout⟩
      obtain ⟨j, rfl⟩ := Int.eq_ofNat_of_zero_le (a := ref) (by omega)
      obtain ⟨visits, hj⟩ := ih (i := j) (by omega) (List.nodup_cons.mpr ⟨hnew, hpath⟩)
        (by simpa using ⟨hi, hin⟩) (by simp; omega)
      simp only [if_neg hout, Int.toNat_natCast]
      rw [runFrom_andThen]
      exact ⟨_, .refers hn hnew hc hr (by omega) hj⟩

lemma settles_first (hi : i < cells.length) : ∃ visits, Settles cells span values s [] i visits
    (runFrom (settle cells.toArray span (cells.length + 1) [] values i) s) :=
  settles_settle hi List.nodup_nil (by simp) (by simp)

lemma settlesAll_settleAll {slots : List ℕ} (hslots : ∀ i ∈ slots, i < cells.length) :
    SettlesAll cells span slots values s
      (runFrom (settleAll cells.toArray span slots values) s) := by
  induction slots generalizing values s with
  | nil => exact .nil
  | cons i rest ih =>
    obtain ⟨visits, hi⟩ : ∃ visits, Settles cells span values s [] i visits _ :=
      settles_first (hslots i List.mem_cons_self)
    rw [settleAll, runFrom_andThen, List.size_toArray]
    rcases hrun : runFrom (settle cells.toArray span (cells.length + 1) [] values i) s
      with ⟨e | p, s₁⟩
    · rw [hrun] at hi
      exact .halts hi (by simp [proceed])
    rw [hrun] at hi
    cases p with
    | split v origin => exact .halts hi (by simp [proceed])
    | settled values₁ => exact .next hi (ih fun j hj => hslots j (List.mem_cons_of_mem i hj))

lemma resolves_iff {r : Except Stop Progress × Scope} : Resolves cells span s r ↔
    runFrom (settleAll cells.toArray span (List.range cells.length)
      (Array.replicate cells.length none)) s = r := by
  have hrun : Resolves cells span s _ := settlesAll_settleAll (by simp)
  exact ⟨hrun.unique, fun h => h ▸ hrun⟩

/-! ### What is split -/

/-- Slot `k` holds a variable or a difference. -/
inductive Divisible (cells : List Cell) (k : ℕ) : Prop
  | ofVariable {v : Variable} (hc : cells[k]? = some (.free v))
  | ofDifference {ref : ℤ} {count : Int64} {operand : StateList} {span : Span}
    (hc : cells[k]? = some (.operation ref .minus count operand span))

lemma Divisible.nonLiterals_substituted (h : Divisible cells k) (w : Variable) :
    ∀ part ∈ substituted cells w k, nonLiterals part < nonLiterals cells := by
  intro part hpart
  obtain ⟨x, -, rfl⟩ := List.mem_map.mp hpart
  cases h with
  | ofVariable hc | ofDifference hc => exact nonLiterals_set hc rfl

/-- A variable comes from a slot that holds one, or a difference, and this is its origin. -/
lemma Settled.divisible {v : Value} (h : Settled cells values i v) (hv : v = .free w origin) :
    ∃ k : ℕ, origin = k ∧ Divisible cells k := by
  induction h with
  | free hc =>
    cases hv
    exact ⟨_, rfl, .ofVariable hc⟩
  | difference hc =>
    cases hv
    exact ⟨_, rfl, .ofDifference hc⟩
  | boundFree _ _ _ ih =>
    cases hv
    exact ih rfl
  | literal | single | boundState | mapped | shifted | rest => cases hv

lemma invariant_divisible : Invariant cells (fun _ => AllSettled cells)
    (fun _ _ origin => ∃ k : ℕ, origin = k ∧ Divisible cells k) where
  value := invariant_settled.value
  split := by
    intro s s' values i c slot origin v hs _ _ _ hslot
    obtain ⟨j, rfl⟩ := valueAt_some hslot
    exact (hs j _ hslot).divisible rfl

/-- The slot in which a layout is split holds a variable or a difference. -/
lemma Resolves.divisible (h : Resolves cells span s (.ok (.split w origin), s')) :
    ∃ k : ℕ, origin = k ∧ Divisible cells k := by
  have hstart : AllSettled cells (Array.replicate cells.length none) := by
    intro i v hv
    rw [valueAt_replicate] at hv
    cases hv
  exact (invariant_divisible.settleAll hstart Array.size_replicate (resolves_iff.mp h)).1

/-! ### Branching -/

lemma branchesAll_iff {layouts : List (List Cell)} {act : List Cell → ScopeM (List Row)}
    {r : Except Stop (List (List Row)) × Scope}
    (h : ∀ part ∈ layouts, ∀ s r, Branches span part s r ↔ runFrom (act part) s = r) :
    BranchesAll span layouts s r ↔ runFrom (layouts.mapM act) s = r := by
  induction layouts generalizing s r with
  | nil =>
    constructor
    · rintro ⟨⟩
      rfl
    · rintro rfl
      exact .nil
  | cons part rest ih =>
    have hpart := h part List.mem_cons_self
    have hrest : ∀ {s r}, BranchesAll span rest s r ↔ runFrom (rest.mapM act) s = r :=
      ih fun part hmem => h part (List.mem_cons_of_mem _ hmem)
    rw [List.mapM_cons, runFrom_bind]
    constructor
    · intro hall
      cases hall with
      | stopped h' => rw [(hpart _ _).mp h']
      | cons h' hrest' =>
        rw [(hpart _ _).mp h']
        simp only [bind_pure_comp, runFrom_map]
        rw [hrest.mp hrest']
    · rintro rfl
      rcases hrun : runFrom (act part) s with ⟨e | rows, s₁⟩
      · exact .stopped ((hpart _ _).mpr hrun)
      · simp only [bind_pure_comp, runFrom_map]
        exact .cons ((hpart _ _).mpr hrun) (hrest.mpr rfl)

lemma runFrom_branch_split {splits : ℕ} (h : Resolves cells span s (.ok (.split w origin), s')) :
    runFrom (branch span (splits + 1) cells) s =
      runFrom (List.flatten <$> (substituted cells w origin.toNat).mapM
        (branch span splits)) s' := by
  rw [branch, runFrom_bind, resolves_iff.mp h, substituted, List.mapM_map]
  simp only [bind_pure_comp]
  rfl

/-- **All splits.** Each makes a literal of a slot that held none, so the splits do not run out. -/
lemma branches_iff {splits : ℕ} {r : Except Stop (List Row) × Scope}
    (hsplits : nonLiterals cells < splits) :
    Branches span cells s r ↔ runFrom (branch span splits cells) s = r := by
  induction splits generalizing cells s r with
  | zero => omega
  | succ splits ih =>
    -- the layouts of a split leave one split less, and have fewer cells to be split
    have hparts : ∀ {v origin s₁ r}, Resolves cells span s (.ok (.split v origin), s₁) →
        (BranchesAll span (substituted cells v origin.toNat) s₁ r ↔
          runFrom ((substituted cells v origin.toNat).mapM (branch span splits)) s₁ = r) := by
      intro v origin s₁ r hres
      obtain ⟨k, rfl, hk⟩ := hres.divisible
      refine branchesAll_iff fun part hpart s r => ih ?_
      have hlt := hk.nonLiterals_substituted v part hpart
      omega
    constructor
    · intro h
      cases h with
      | stopped h' => rw [branch, runFrom_bind, resolves_iff.mp h']
      | row h' =>
        rw [branch, runFrom_bind, resolves_iff.mp h']
        rfl
      | split h' hall => rw [runFrom_branch_split h', runFrom_map, (hparts h').mp hall]
    · rintro rfl
      rcases hrun : runFrom (settleAll cells.toArray span (List.range cells.length)
        (Array.replicate cells.length none)) s with ⟨e | p, s₁⟩
      · rw [branch, runFrom_bind, hrun]
        exact .stopped (resolves_iff.mpr hrun)
      cases p with
      | settled values =>
        rw [branch, runFrom_bind, hrun]
        exact .row (resolves_iff.mpr hrun)
      | split v origin =>
        have hres := resolves_iff.mpr hrun
        rw [runFrom_branch_split hres, runFrom_map]
        exact .split hres ((hparts hres).mpr rfl)

/-- **Branching ends**, whatever the cells refer to and however many states their variables have.

Left to itself, resolving a slot comes to one end, which is that of the bounded run; it visits only
slots of the layout, and none while it waits. If a layout is to be split, then its slot of that
origin holds a variable or a difference, so each layout that branching goes on with has fewer cells
that are no literals. Hence branching comes to one end, which is that of the bounded run for any
bound above their number, and the rows of the layout are the distinct ones among those found. -/
theorem branching_ends (cells : List Cell) (span : Span) (s : Scope) :
    (∀ (values : Slots) (i : Fin cells.length), ∃ visits : List ℕ, visits.Nodup ∧
      (∀ j ∈ visits, j < cells.length) ∧ ∀ visits' r, Settles cells span values s [] i visits' r ↔
        visits' = visits ∧
          runFrom (settle cells.toArray span (cells.length + 1) [] values i) s = r) ∧
    (∀ v origin s', Resolves cells span s (.ok (.split v origin), s') → ∃ k : ℕ, origin = k ∧
      Divisible cells k ∧ ∀ part ∈ substituted cells v k, nonLiterals part < nonLiterals cells) ∧
    (∀ splits r, nonLiterals cells < splits →
      (Branches span cells s r ↔ runFrom (branch span splits cells) s = r)) ∧
    ∃ r, Branches span cells s r ∧ runFrom (expand cells span) s = (r.1.map Row.distinct, r.2) := by
  refine ⟨fun values i => ?_, fun v origin s' h => ?_, fun splits r => branches_iff, ?_⟩
  · obtain ⟨visits, h⟩ : ∃ visits, Settles cells span values s [] i visits _ := settles_first i.isLt
    refine ⟨visits, by simpa using h.nodup List.nodup_nil, h.lt, fun visits' r => ?_⟩
    constructor
    · exact fun h' => h'.unique h |>.imp_right Eq.symm
    · rintro ⟨rfl, rfl⟩
      exact h
  · obtain ⟨k, rfl, hk⟩ := h.divisible
    exact ⟨k, rfl, hk, hk.nonLiterals_substituted v⟩
  · refine ⟨_, (branches_iff (Nat.lt_succ_self _)).mpr rfl, ?_⟩
    rw [expand, bind_pure_comp, runFrom_map]
    rfl

/-! The mapping wants the variable split; with a state in its place, the third slot is found to
refer to itself. -/

def selfReferring : List Cell :=
  [.free Rule.ternary, .mapping 0 [1, 2, 0] false .nowhere, .binding 2 .nowhere, .literal 0 none]

theorem branching_ends_selfReferring :
    Resolves selfReferring .nowhere Rule.ternaryScope
      (.ok (.split Rule.ternary 0), Rule.ternaryScope) ∧ Divisible selfReferring 0 ∧
    (∀ part ∈ substituted selfReferring Rule.ternary 0, nonLiterals part < 3) ∧
    Branches .nowhere selfReferring Rule.ternaryScope (.error (.refused
      ((Failure.bare (.circularReference 2)).locate .undefinedReference .nowhere)),
      Rule.ternaryScope) := by
  obtain ⟨-, hsplit, hbranch, -⟩ := branching_ends selfReferring .nowhere Rule.ternaryScope
  have hres : Resolves selfReferring .nowhere Rule.ternaryScope
      (.ok (.split Rule.ternary 0), Rule.ternaryScope) := resolves_iff.mpr (by cbv)
  obtain ⟨k, hk, hdivisible, hfewer⟩ := hsplit _ _ _ hres
  obtain rfl : k = 0 := by omega
  exact ⟨hres, hdivisible, hfewer, (hbranch 4 _ (by decide)).mpr (by cbv)⟩

end RuleTable.Cell
