import RuleTable.Proofs.Expansion

/-!
Which variables of a layout are split.

A variable is split into its states exactly if some mapping or shift reads it, perhaps through slots
that are bound to it. Where resolving finds this out depends on the order of the slots, and then it
starts again with a state written in place of the variable. But neither which slots are read, nor to
whom they belong, nor the lists that slots range over change by writing a state of such a list.
-/

namespace RuleTable

def StateList.Several (l : StateList) : Prop := ∃ a ∈ l, ∃ b ∈ l, a ≠ b

lemma StateList.Several.unique? {l : StateList} (h : l.Several) : l.unique? = none := by
  obtain ⟨a, ha, b, hb, hab⟩ := h
  cases l with
  | nil => cases ha
  | cons t rest =>
    rw [StateList.unique?, if_neg]
    intro hall
    have hsame : ∀ x ∈ t :: rest, x = t := by simpa using hall
    exact hab ((hsame a ha).trans (hsame b hb).symm)

def Row.IsVariable (row : Row) (i : ℕ) : Prop := ∃ v origin, row[i]? = some (.free v origin)

namespace Cell

variable {cells : List Cell} {i j k : ℕ} {c : Cell} {u v : Value} {w : Variable} {l l' : StateList}
  {values values' : Slots} {row : Row} {s s' : Scope} {span : Span}

/-! ### Owners, readers and ranges -/

def isBinding : Cell → Bool
  | .binding _ _ => true
  | _ => false

/-- The slot that a mapping or a shift refers to, which must be a state. -/
def reads? : Cell → Option Int
  | .mapping ref _ _ _ | .operation ref .shift _ _ _ => some ref
  | _ => none

/-- Following bindings from slot `i` ends in slot `k`. -/
inductive Owner (cells : List Cell) : ℕ → ℕ → Prop
  | self {i : ℕ} {c : Cell} (hc : cells[i]? = some c) (hb : c.isBinding = false) : Owner cells i i
  | bound {i j k : ℕ} {span : Span} (hc : cells[i]? = some (.binding j span))
    (hk : Owner cells j k) : Owner cells i k

/-- Some mapping or shift reads a slot that belongs to slot `i`. -/
def Read (cells : List Cell) (i : ℕ) : Prop :=
  ∃ c ∈ cells, ∃ j : ℕ, c.reads? = some (j : ℤ) ∧ Owner cells j i

/-- The states that slot `i` ranges over, or those that its state is taken from. -/
inductive Ranges (cells : List Cell) : ℕ → StateList → Prop
  | literal {i : ℕ} {t : ℤ} {drawn : Option Draw} (hc : cells[i]? = some (.literal t drawn)) :
    Ranges cells i (sourceOf t drawn).1
  | free {i : ℕ} {v : Variable} (hc : cells[i]? = some (.free v)) : Ranges cells i v.states
  | binding {i j : ℕ} {span : Span} {l : StateList} (hc : cells[i]? = some (.binding j span))
    (hj : Ranges cells j l) : Ranges cells i l
  | mapping {i : ℕ} {ref : ℤ} {images : StateList} {ellipsis : Bool} {span : Span}
    (hc : cells[i]? = some (.mapping ref images ellipsis span)) : Ranges cells i images
  | shift {i j : ℕ} {count : Int64} {operand : StateList} {span : Span} {l : StateList}
    (hc : cells[i]? = some (.operation j .shift count operand span)) (hj : Ranges cells j l) :
    Ranges cells i (l.shift count)
  | minus {i j : ℕ} {count : Int64} {operand : StateList} {span : Span} {l : StateList}
    (hc : cells[i]? = some (.operation j .minus count operand span)) (hj : Ranges cells j l) :
    Ranges cells i (match (l.minus operand).unique? with
      | some t => [t]
      | none => l.minus operand)

/-- The slot may take different states of its own: it has a variable with several, or a difference
that leaves several. -/
inductive Free (cells : List Cell) (i : ℕ) : Prop
  | ofVariable {v : Variable} (hc : cells[i]? = some (.free v)) (hv : v.states.Several)
  | ofDifference {j : ℕ} {count : Int64} {operand : StateList} {span : Span} {l : StateList}
    (hc : cells[i]? = some (.operation j .minus count operand span)) (hj : Ranges cells j l)
    (hl : (l.minus operand).Several)

lemma Ranges.unique (h : Ranges cells i l) (h' : Ranges cells i l') : l = l' := by
  induction h generalizing l' with
  | literal hc | free hc | mapping hc => cases h' <;> simp_all
  | binding hc hj ih =>
    cases h' with
    | binding hc' hj' =>
      rw [hc] at hc'
      simp only [Option.some.injEq, Cell.binding.injEq, Nat.cast_inj] at hc'
      exact ih (hc'.1 ▸ hj')
    | _ => simp_all
  | shift hc hj ih =>
    cases h' with
    | shift hc' hj' =>
      rw [hc] at hc'
      simp only [Option.some.injEq, Cell.operation.injEq, Nat.cast_inj] at hc'
      obtain ⟨rfl, -, rfl, -, -⟩ := hc'
      rw [ih hj']
    | _ => simp_all
  | minus hc hj ih =>
    cases h' with
    | minus hc' hj' =>
      rw [hc] at hc'
      simp only [Option.some.injEq, Cell.operation.injEq, Nat.cast_inj] at hc'
      obtain ⟨rfl, -, -, rfl, -⟩ := hc'
      rw [ih hj']
    | _ => simp_all

/-! ### What the values of slots say -/

/-- The value of slot `i` is what its cell makes of the known value of the slot it refers to, which
has come about in the same way. -/
inductive Settled (cells : List Cell) (values : Slots) : ℕ → Value → Prop
  | literal {i : ℕ} {t : ℤ} {drawn : Option Draw} (hc : cells[i]? = some (.literal t drawn)) :
    Settled cells values i (.state t drawn i)
  | single {i : ℕ} {w : Variable} {t : ℤ} (hc : cells[i]? = some (.free w))
    (hu : w.states.unique? = some t) : Settled cells values i (.state t (some ⟨w, 0⟩) i)
  | free {i : ℕ} {w : Variable} (hc : cells[i]? = some (.free w)) (hu : w.states.unique? = none) :
    Settled cells values i (.free w i)
  | boundFree {i j : ℕ} {span : Span} {w : Variable} {origin : ℤ}
    (hc : cells[i]? = some (.binding j span)) (hj : valueAt values j = some (.free w origin))
    (h : Settled cells values j (.free w origin)) : Settled cells values i (.free w origin)
  | boundState {i j : ℕ} {span : Span} {t : ℤ} {drawn : Option Draw} {origin : ℤ}
    (hc : cells[i]? = some (.binding j span)) (hj : valueAt values j = some (.state t drawn origin))
    (h : Settled cells values j (.state t drawn origin)) : Settled cells values i (.state t drawn i)
  | mapped {i j : ℕ} {images : StateList} {ellipsis : Bool} {span : Span} {t t' : ℤ}
    {drawn drawn' : Option Draw} {origin : ℤ}
    (hc : cells[i]? = some (.mapping j images ellipsis span))
    (hj : valueAt values j = some (.state t drawn origin)) (hs : (sourceOf t' drawn').1 = images) :
    Settled cells values i (.state t' drawn' i)
  | shifted {i j : ℕ} {count : Int64} {operand : StateList} {span : Span} {t t' : ℤ}
    {drawn drawn' : Option Draw} {origin : ℤ}
    (hc : cells[i]? = some (.operation j .shift count operand span))
    (hj : valueAt values j = some (.state t drawn origin))
    (h : Settled cells values j (.state t drawn origin))
    (hs : (sourceOf t' drawn').1 = (sourceOf t drawn).1.shift count) :
    Settled cells values i (.state t' drawn' i)
  | rest {i j : ℕ} {count : Int64} {operand : StateList} {span : Span} {u : Value} {t : ℤ}
    (hc : cells[i]? = some (.operation j .minus count operand span))
    (hj : valueAt values j = some u) (h : Settled cells values j u)
    (hu : ((sourceStates u).minus operand).unique? = some t) :
    Settled cells values i (.state t none i)
  | difference {i j : ℕ} {count : Int64} {operand : StateList} {span : Span} {u : Value}
    {w : Variable} (hc : cells[i]? = some (.operation j .minus count operand span))
    (hj : valueAt values j = some u) (h : Settled cells values j u)
    (hu : ((sourceStates u).minus operand).unique? = none)
    (hw : w.states = (sourceStates u).minus operand) : Settled cells values i (.free w i)

lemma Settled.mono (h : Settled cells values i v)
    (hg : ∀ slot u, valueAt values slot = some u → valueAt values' slot = some u) :
    Settled cells values' i v := by
  induction h with
  | literal hc => exact .literal hc
  | single hc hu => exact .single hc hu
  | free hc hu => exact .free hc hu
  | boundFree hc hj _ ih => exact .boundFree hc (hg _ _ hj) ih
  | boundState hc hj _ ih => exact .boundState hc (hg _ _ hj) ih
  | mapped hc hj hs => exact .mapped hc (hg _ _ hj) hs
  | shifted hc hj _ hs ih => exact .shifted hc (hg _ _ hj) ih hs
  | rest hc hj _ hu ih => exact .rest hc (hg _ _ hj) ih hu
  | difference hc hj _ hu hw ih => exact .difference hc (hg _ _ hj) ih hu hw

def AllSettled (cells : List Cell) (values : Slots) : Prop :=
  ∀ (i : ℕ) v, valueAt values i = some v → Settled cells values i v

/-- What a cell resolves to is settled. -/
lemma AllSettled.resolve (hs : AllSettled cells values) (hc : cells[i]? = some c)
    (h : runFrom (c.resolve (valueAt values) i) s = (.ok (.value v), s')) :
    Settled cells values i v := by
  cases resolvesTo_of_ok h with
  | literal t drawn => exact .literal hc
  | single ht => exact .single hc ht
  | free hu => exact .free hc hu
  | boundFree hj => exact .boundFree hc hj (hs _ _ hj)
  | boundState hj => exact .boundState hc hj (hs _ _ hj)
  | mapped hj hl =>
    obtain ⟨t', -, d, hd, hval⟩ := lookUp_state hl
    cases hval
    exact .mapped hc hj hd
  | shifted hj hl =>
    obtain ⟨t', -, d, hd, hval⟩ := lookUp_state hl
    cases hval
    exact .shifted hc hj (hs _ _ hj) hd
  | removed hj hr =>
    obtain ⟨-, ⟨t, ht, hval⟩ | ⟨hu, w, hw, hval⟩⟩ := remove_ok hr <;> cases hval
    · exact .rest hc hj (hs _ _ hj) ht
    · exact .difference hc hj (hs _ _ hj) hu hw.states_eq

/-- What is to be split is what a mapping or a shift reads. -/
lemma reads?_of_split {slot : ℤ}
    (h : runFrom (c.resolve (valueAt values) i) s = (.ok (.split slot), s')) :
    c.reads? = some slot := by
  cases resolvesTo_of_ok h with
  | splitMapping _ => rfl
  | splitShift _ => rfl

/-- A settled value has the list that its slot ranges over. -/
lemma Settled.ranges (h : Settled cells values i v) : Ranges cells i (sourceStates v) := by
  induction h with
  | literal hc => exact .literal hc
  | single hc hu => exact .free hc
  | free hc hu => exact .free hc
  | boundFree hc _ _ ih => exact .binding hc ih
  | boundState hc _ _ ih => exact .binding hc ih
  | mapped hc _ hs =>
    rw [sourceStates, hs]
    exact .mapping hc
  | shifted hc _ _ hs ih =>
    rw [sourceStates, hs]
    exact .shift hc ih
  | rest hc _ _ hu ih =>
    have hr := Ranges.minus hc ih
    rwa [hu] at hr
  | difference hc _ _ hu hw ih =>
    have hr := Ranges.minus hc ih
    rwa [hu, ← hw] at hr

/-- The value of a slot is a variable exactly if that of its owner is, and then it is the same. -/
lemma Settled.owner (h : Settled cells values i v) (hv : valueAt values i = some v) :
    ∃ k u, Owner cells i k ∧ valueAt values k = some u ∧
      ∀ w origin, v = .free w origin ↔ u = .free w origin := by
  induction h with
  | boundFree hc hj _ ih =>
    obtain ⟨k, u, hk, hu, hiff⟩ := ih hj
    exact ⟨k, u, .bound hc hk, hu, hiff⟩
  | boundState hc hj _ ih =>
    obtain ⟨k, u, hk, hu, hiff⟩ := ih hj
    exact ⟨k, u, .bound hc hk, hu, fun w origin => by simp [← hiff]⟩
  | literal hc | single hc | free hc | mapped hc | shifted hc | rest hc | difference hc =>
    exact ⟨_, _, .self hc rfl, hv, fun _ _ => Iff.rfl⟩

/-- What a mapping or a shift reads is a state once the slot is settled. -/
lemma Settled.state_of_reads (h : Settled cells values i v) (hc : cells[i]? = some c)
    (hr : c.reads? = some (j : ℤ)) :
    ∃ t drawn origin, valueAt values j = some (.state t drawn origin) := by
  cases h with
  | mapped hc' hj | shifted hc' hj =>
    obtain rfl := Option.some.inj (hc.symm.trans hc')
    obtain rfl := Int.ofNat_inj.mp (Option.some.inj hr)
    exact ⟨_, _, _, hj⟩
  | literal hc' | single hc' | free hc' | boundFree hc' | boundState hc' | rest hc'
  | difference hc' =>
    obtain rfl := Option.some.inj (hc.symm.trans hc')
    cases hr

/-- Outside bindings only a variable or a difference gives a variable; it belongs to the slot. -/
lemma Settled.own_of_free {origin : ℤ} (h : Settled cells values i (.free w origin))
    (hc : cells[i]? = some c) (hb : c.isBinding = false) :
    origin = i ∧ c.reads? = none ∧ c.isLiteral = false := by
  cases h with
  | free hc' | difference hc' =>
    obtain rfl := Option.some.inj (hc.symm.trans hc')
    exact ⟨rfl, rfl, rfl⟩
  | boundFree hc' =>
    obtain rfl := Option.some.inj (hc.symm.trans hc')
    cases hb

/-- A slot that may take different states of its own has a variable. -/
lemma Settled.isFree (h : Settled cells values i v) (hfree : Free cells i) :
    ∃ w origin, v = .free w origin := by
  cases hfree with
  | ofVariable hc hv =>
    cases h with
    | free => exact ⟨_, _, rfl⟩
    | single hc' hu =>
      rw [hc] at hc'
      cases hc'
      rw [hv.unique?] at hu
      cases hu
    | literal hc' | boundFree hc' | boundState hc' | mapped hc' | shifted hc' | rest hc'
    | difference hc' =>
      rw [hc] at hc'
      cases hc'
  | ofDifference hc hj hl =>
    cases h with
    | difference => exact ⟨_, _, rfl⟩
    | rest hc' hj' hu ht =>
      rw [hc] at hc'
      simp only [Option.some.injEq, Cell.operation.injEq, Nat.cast_inj] at hc'
      obtain ⟨rfl, -, -, rfl, -⟩ := hc'
      rw [← hj.unique hu.ranges, hl.unique?] at ht
      cases ht
    | literal hc' | single hc' | free hc' | boundFree hc' | boundState hc' | mapped hc'
    | shifted hc' =>
      rw [hc] at hc'
      cases hc'

/-! ### A layout whose slots are all known -/

/-- Which slots of a row are variables: no written state, a free slot exactly if nothing reads it, a
bound slot exactly if its owner is one. A variable belongs to the slot itself or to its owner. -/
structure Branched (cells : List Cell) (row : Row) : Prop where
  length : row.length = cells.length
  literal : ∀ (i : ℕ) t drawn, cells[i]? = some (.literal t drawn) → ¬ row.IsVariable i
  free : ∀ i, Free cells i → (row.IsVariable i ↔ ¬ Read cells i)
  own : ∀ (i : ℕ) c v origin, cells[i]? = some c → c.isBinding = false →
    row[i]? = some (.free v origin) → origin = i
  binding : ∀ (i : ℕ) ref span, cells[i]? = some (.binding ref span) →
    ∃ k, Owner cells i k ∧ (row.IsVariable i ↔ row.IsVariable k) ∧
      ∀ v origin, row[i]? = some (.free v origin) → origin = k

lemma Owner.unique (h : Owner cells i j) (h' : Owner cells i k) : j = k := by
  induction h with
  | self hc hb =>
    cases h' with
    | self => rfl
    | bound hc' =>
      obtain rfl := Option.some.inj (hc.symm.trans hc')
      cases hb
  | bound hc _ ih =>
    cases h' with
    | self hc' hb =>
      obtain rfl := Option.some.inj (hc.symm.trans hc')
      cases hb
    | bound hc' hk =>
      rw [hc] at hc'
      simp only [Option.some.injEq, Cell.binding.injEq, Nat.cast_inj] at hc'
      exact ih (hc'.1 ▸ hk)

lemma Owner.cell (h : Owner cells i k) : ∃ c, cells[k]? = some c ∧ c.isBinding = false := by
  induction h with
  | self hc hb => exact ⟨_, hc, hb⟩
  | bound _ _ ih => exact ih

/-- The cell of a slot that a variable may belong to. -/
def Splits (c : Cell) : Prop := c.isBinding = false ∧ c.reads? = none ∧ c.isLiteral = false

lemma Free.cell (h : Free cells i) : ∃ c, cells[i]? = some c ∧ c.Splits := by
  cases h with
  | ofVariable hc | ofDifference hc => exact ⟨_, hc, rfl, rfl, rfl⟩

lemma AllSettled.branched (hs : AllSettled cells values) (hrow : Complete values row)
    (hsize : values.size = cells.length) : Branched cells row := by
  have hlen : row.length = cells.length := by
    rw [← hsize, ← Array.length_toList, hrow, List.length_map]
  have hset : ∀ {i : ℕ} {v}, row[i]? = some v → Settled cells values i v :=
    fun {i v} hv => hs i v ((hrow.valueAt i).trans hv)
  have hknown : ∀ {i : ℕ} {c}, cells[i]? = some c → ∃ v, row[i]? = some v := by
    intro i c hc
    have hlt : i < row.length := hlen ▸ (List.getElem?_eq_some_iff.mp hc).1
    exact ⟨_, List.getElem?_eq_getElem hlt⟩
  refine ⟨hlen, ?_, fun i hfree => ?_, ?_, fun i ref span hc => ?_⟩
  · rintro i t drawn hc ⟨v, origin, hv⟩
    have hlit := ((hset hv).own_of_free hc rfl).2.2
    cases hlit
  · -- what reads the slot would have found a state at its owner
    obtain ⟨c, hc, -⟩ := hfree.cell
    obtain ⟨v, hv⟩ := hknown hc
    obtain ⟨w, origin, rfl⟩ := (hset hv).isFree hfree
    refine iff_of_true ⟨w, origin, hv⟩ ?_
    rintro ⟨c', hmem, j, hr, hown⟩
    obtain ⟨m, hm⟩ := List.mem_iff_getElem?.mp hmem
    obtain ⟨v', hv'⟩ := hknown hm
    obtain ⟨t, drawn, o, hj⟩ := (hset hv').state_of_reads hm hr
    obtain ⟨k, u, hk, hu, hiff⟩ := (hs j _ hj).owner hj
    obtain rfl := hk.unique hown
    rw [hrow.valueAt, hv] at hu
    obtain rfl := Option.some.inj hu
    cases (hiff w origin).mpr rfl
  · intro i c v origin hc hb hv
    exact ((hset hv).own_of_free hc hb).1
  · obtain ⟨v, hv⟩ := hknown hc
    obtain ⟨k, u, hk, hu, hiff⟩ := (hset hv).owner ((hrow.valueAt i).trans hv)
    rw [hrow.valueAt] at hu
    have hsame : ∀ w origin, row[i]? = some (.free w origin) ↔ row[k]? = some (.free w origin) := by
      intro w origin
      rw [hv, hu, Option.some.injEq, Option.some.injEq, hiff]
    refine ⟨k, hk, exists_congr fun w => exists_congr (hsame w), fun w origin hw => ?_⟩
    obtain ⟨c, hc, hb⟩ := hk.cell
    exact ((hset ((hsame w origin).mp hw)).own_of_free hc hb).1

/-! ### Splitting -/

/-- The variable belongs to slot `k`, and something reads it. -/
structure Demanded (cells : List Cell) (k : ℕ) (v : Variable) : Prop where
  read : Read cells k
  ranges : Ranges cells k v.states
  cell : ∃ c, cells[k]? = some c ∧ c.Splits

lemma invariant_settled : Invariant cells (fun _ => AllSettled cells)
    (fun _ v origin => ∃ k : ℕ, origin = k ∧ Demanded cells k v) where
  value := by
    rintro s s' values i c v hs hsize hc hn hrun -
    have hlt : i < values.size := hsize ▸ (List.getElem?_eq_some_iff.mp hc).1
    have hgrows : Grows [] values (values.set! i (some v)) := grows_set hlt hn (by simp)
    intro k u hu
    rw [valueAt_set_nat hlt] at hu
    split at hu
    · next hk =>
      cases hu
      exact hk ▸ (hs.resolve hc hrun).mono hgrows.known
    · exact (hs k u hu).mono hgrows.known
  split := by
    intro s s' values i c slot origin v hs hsize hc hrun hslot
    obtain ⟨j, rfl⟩ := valueAt_some hslot
    obtain ⟨k, u, hk, hu, hiff⟩ := (hs j _ hslot).owner hslot
    obtain rfl := (hiff v origin).mp rfl
    obtain ⟨c', hc', hb⟩ := hk.cell
    obtain ⟨rfl, hreads, hlit⟩ := (hs k _ hu).own_of_free hc' hb
    exact ⟨k, rfl, ⟨c, List.mem_of_getElem? hc, j, reads?_of_split hrun, hk⟩, (hs k _ hu).ranges,
      c', hc', hb, hreads, hlit⟩

section

variable {t : ℤ} {index : ℕ}

lemma Demanded.getElem?_self (hd : Demanded cells k w) :
    (cells.set k (.literal t (some ⟨w, index⟩)))[k]? = some (.literal t (some ⟨w, index⟩)) := by
  obtain ⟨c, hc, -⟩ := hd.cell
  rw [List.getElem?_set_self (List.getElem?_eq_some_iff.mp hc).1]

lemma getElem?_set_other (c' : Cell) (hi : i ≠ k) : (cells.set k c')[i]? = cells[i]? :=
  List.getElem?_set_ne hi.symm

/-- The list a slot ranges over stays when a state of it is written. -/
lemma Demanded.ranges_set (hd : Demanded cells k w) (h : Ranges cells i l) :
    Ranges (cells.set k (.literal t (some ⟨w, index⟩))) i l := by
  have hstep : ∀ {i l}, Ranges cells i l →
      (i ≠ k → Ranges (cells.set k (.literal t (some ⟨w, index⟩))) i l) →
      Ranges (cells.set k (.literal t (some ⟨w, index⟩))) i l := by
    intro i l hl hother
    rcases eq_or_ne i k with rfl | hi
    · rw [hl.unique hd.ranges]
      exact .literal hd.getElem?_self
    · exact hother hi
  induction h with
  | literal hc => exact hstep (.literal hc) fun hi => .literal ((getElem?_set_other _ hi).trans hc)
  | free hc => exact hstep (.free hc) fun hi => .free ((getElem?_set_other _ hi).trans hc)
  | binding hc hj ih =>
    exact hstep (.binding hc hj) fun hi => .binding ((getElem?_set_other _ hi).trans hc) ih
  | mapping hc => exact hstep (.mapping hc) fun hi => .mapping ((getElem?_set_other _ hi).trans hc)
  | shift hc hj ih =>
    exact hstep (.shift hc hj) fun hi => .shift ((getElem?_set_other _ hi).trans hc) ih
  | minus hc hj ih =>
    exact hstep (.minus hc hj) fun hi => .minus ((getElem?_set_other _ hi).trans hc) ih

lemma Demanded.owner_set_iff (hd : Demanded cells k w) :
    Owner (cells.set k (.literal t (some ⟨w, index⟩))) i j ↔ Owner cells i j := by
  obtain ⟨c, hc, hb, -⟩ := hd.cell
  have hself : (cells.set k (.literal t (some ⟨w, index⟩)))[k]? = _ := hd.getElem?_self
  constructor
  · intro h
    induction h with
    | @self i c' hc' hb' =>
      rcases eq_or_ne i k with rfl | hi
      · exact .self hc hb
      · exact .self ((getElem?_set_other _ hi).symm.trans hc') hb'
    | @bound i _ _ _ hc' _ ih =>
      have hi : i ≠ k := by
        rintro rfl
        cases hself.symm.trans hc'
      exact .bound ((getElem?_set_other _ hi).symm.trans hc') ih
  · intro h
    induction h with
    | @self i c' hc' hb' =>
      rcases eq_or_ne i k with rfl | hi
      · exact .self hself rfl
      · exact .self ((getElem?_set_other _ hi).trans hc') hb'
    | @bound i _ _ _ hc' _ ih =>
      have hi : i ≠ k := by
        rintro rfl
        obtain rfl := Option.some.inj (hc.symm.trans hc')
        cases hb
      exact .bound ((getElem?_set_other _ hi).trans hc') ih

lemma Demanded.read_set_iff (hd : Demanded cells k w) :
    Read (cells.set k (.literal t (some ⟨w, index⟩))) i ↔ Read cells i := by
  unfold Read
  simp only [hd.owner_set_iff]
  constructor
  · rintro ⟨c, hmem, j, hr, hown⟩
    rcases List.mem_or_eq_of_mem_set hmem with hmem | rfl
    · exact ⟨c, hmem, j, hr, hown⟩
    · cases hr
  · rintro ⟨c, hmem, j, hr, hown⟩
    obtain ⟨m, hm⟩ := List.mem_iff_getElem?.mp hmem
    have hmk : m ≠ k := by
      rintro rfl
      obtain ⟨c', hc', -, hreads, -⟩ := hd.cell
      rw [Option.some.inj (hm.symm.trans hc'), hreads] at hr
      cases hr
    exact ⟨c, List.mem_of_getElem? ((getElem?_set_other _ hmk).trans hm), j, hr, hown⟩

lemma Demanded.free_set (hd : Demanded cells k w) (hi : i ≠ k) (h : Free cells i) :
    Free (cells.set k (.literal t (some ⟨w, index⟩))) i := by
  cases h with
  | ofVariable hc hv => exact .ofVariable ((getElem?_set_other _ hi).trans hc) hv
  | ofDifference hc hj hl =>
    exact .ofDifference ((getElem?_set_other _ hi).trans hc) (hd.ranges_set hj) hl

/-- **One split.** What holds of a row for the layout with a state in place of the variable holds of
it for the layout. -/
lemma Demanded.branched (hd : Demanded cells k w)
    (h : Branched (cells.set k (.literal t (some ⟨w, index⟩))) row) : Branched cells row := by
  have hself : (cells.set k (.literal t (some ⟨w, index⟩)))[k]? = _ := hd.getElem?_self
  obtain ⟨c, hc, hb, -, hlit⟩ := hd.cell
  have hother : ∀ {i c'}, cells[i]? = some c' → i ≠ k →
      (cells.set k (.literal t (some ⟨w, index⟩)))[i]? = some c' :=
    fun hc' hi => (getElem?_set_other _ hi).trans hc'
  have hne : ∀ {i c'}, cells[i]? = some c' → c' ≠ c → i ≠ k := by
    rintro i c' hc' hcc rfl
    exact hcc (Option.some.inj (hc'.symm.trans hc))
  refine ⟨by rw [h.length, List.length_set], fun i t' drawn hi => ?_, fun i hfree => ?_,
    fun i c' v origin hi hb' hv => ?_, fun i ref span hi => ?_⟩
  · exact h.literal i t' drawn (hother hi (hne hi (by rintro rfl; cases hlit)))
  · rcases eq_or_ne i k with rfl | hik
    · exact iff_of_false (h.literal _ _ _ hself) (not_not_intro hd.read)
    · rw [h.free i (hd.free_set hik hfree), hd.read_set_iff]
  · rcases eq_or_ne i k with rfl | hik
    · exact h.own _ _ v origin hself rfl hv
    · exact h.own _ _ v origin (hother hi hik) hb' hv
  · obtain ⟨j, hj, hrest⟩ := h.binding i ref span (hother hi (hne hi (by rintro rfl; cases hb)))
    exact ⟨j, hd.owner_set_iff.mp hj, hrest⟩

end

lemma RowOf.branched (h : RowOf span cells s row s') : Branched cells row := by
  have hstart : ∀ cells : List Cell, AllSettled cells (Array.replicate cells.length none) := by
    intro cells i v hv
    rw [valueAt_replicate] at hv
    cases hv
  induction h with
  | settled h hrow =>
    obtain ⟨hmeets, -⟩ := invariant_settled.settleAll (hstart _) Array.size_replicate h
    exact AllSettled.branched hmeets hrow (settleAll_complete h).1
  | split h _ _ _ _ ih =>
    obtain ⟨⟨k, rfl, hd⟩, -⟩ := invariant_settled.settleAll (hstart _) Array.size_replicate h
    exact hd.branched ih

/-- **All splits.** -/
lemma branch_branched {splits : ℕ} {rows : List Row}
    (h : runFrom (branch span splits cells) s = (.ok rows, s')) :
    ∀ row ∈ rows, Branched cells row :=
  fun row hrow => (rowOf_of_mem_branch h row hrow).branched

/-- Rows that are alike have the same variables. -/
lemma free_iff_of_alike {row' : Row} (h : row.Alike row') (i : ℕ) (v : Variable) (origin : ℤ) :
    row[i]? = some (.free v origin) ↔ row'[i]? = some (.free v origin) := by
  have hi := rel_getElem? h i
  generalize row[i]? = o, row'[i]? = o' at hi ⊢
  cases hi with
  | none => simp
  | some hv => cases hv <;> simp

/-- **Branching splits what must be known.** In every row of a layout, a slot that may take
different states holds a variable exactly if no mapping and no shift reads it, and a bound slot
holds one exactly if its owner does, to which it then belongs. All rows have the same variables, of
the same origins, in the same slots. -/
theorem expand_splits_what_is_read {rows : List Row}
    (h : runFrom (expand cells span) s = (.ok rows, s')) :
    (∀ row ∈ rows, Branched cells row) ∧ ∀ row ∈ rows, ∀ row' ∈ rows, ∀ (i : ℕ) v origin,
      row[i]? = some (.free v origin) ↔ row'[i]? = some (.free v origin) := by
  obtain ⟨all, s₁, hall, h⟩ := runFrom_bind_ok.mp h
  cases h
  refine ⟨fun row hrow => branch_branched hall row (Row.mem_of_mem_distinct hrow), ?_⟩
  intro row hrow row' hrow' i v origin
  rcases eq_or_ne row row' with rfl | hne
  · rfl
  · exact free_iff_of_alike ((branch_pairwise hall).forall (Row.mem_of_mem_distinct hrow)
      (Row.mem_of_mem_distinct hrow') hne) i v origin

/-! The mapping reads the first variable through a binding. Nothing reads the other variable, nor
what is left of it without a state. -/

def readThrough : List Cell :=
  [.free Rule.ternary, .binding 0 .nowhere, .mapping 1 [1, 2, 0] false .nowhere, .free Rule.ternary,
    .operation 3 .minus 0 [0] .nowhere, .binding 3 .nowhere]

def positive : Variable := { name := "_positive", states := [1, 2], anonymous := true }

def positiveScope : Scope := { Rule.ternaryScope with vars := #[Rule.ternary, positive] }

def readThroughRow (k image : ℤ) : Row :=
  [.state k (some ⟨Rule.ternary, k⟩) 0, .state k (some ⟨Rule.ternary, k⟩) 1,
    .state image (some ⟨{ name := "", states := [1, 2, 0], anonymous := true }, k⟩) 2,
    .free Rule.ternary 3, .free positive 4, .free Rule.ternary 3]

def readThroughRows : List Row := [readThroughRow 0 1, readThroughRow 1 2, readThroughRow 2 0]

theorem expand_splits_readThrough :
    runFrom (expand readThrough .nowhere) positiveScope = (.ok readThroughRows, positiveScope) ∧
    (∀ row ∈ readThroughRows, Branched readThrough row) ∧
    ∀ row ∈ readThroughRows, ∀ row' ∈ readThroughRows, ∀ (i : ℕ) v origin,
      row[i]? = some (.free v origin) ↔ row'[i]? = some (.free v origin) := by
  have hrun : runFrom (expand readThrough .nowhere) positiveScope =
      (.ok readThroughRows, positiveScope) := by cbv
  exact ⟨hrun, expand_splits_what_is_read hrun⟩

end Cell

end RuleTable
