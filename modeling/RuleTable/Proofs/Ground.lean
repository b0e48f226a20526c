import RuleTable.Proofs.Running
import RuleTable.Transition.Row

/-!
What the slots of a layout stand for.

A choice picks an index for every slot that may take more than one state; it counts round the end of
the slot's list, so that every function on slots is a choice. Under a choice a slot stands for a
state together with the list it was drawn from and its index there, because a mapping reads the
index and a shift reads the list. A row stands for the tuples that arise when every occurrence of a
variable takes a state of that variable, the same one wherever it occurs.
-/

namespace RuleTable

/-- A state, the list it was drawn from, and its index there. -/
structure Stand where
  state : Int
  source : StateList
  index : ℕ

def Stand.At (x : Stand) (l : StateList) (k : ℕ) : Prop :=
  x.source = l ∧ x.index = k ∧ l[k]? = some x.state

lemma Stand.At.unique {x y : Stand} {l : StateList} {k : ℕ} (hx : x.At l k) (hy : y.At l k) :
    x = y := by
  obtain ⟨a, _, _⟩ := x
  obtain ⟨b, _, _⟩ := y
  obtain ⟨rfl, rfl, hx⟩ := hx
  obtain ⟨h1, h2, hy⟩ := hy
  simp only at h1 h2 hx hy
  subst h1 h2
  rw [hx, Option.some.injEq] at hy
  rw [hy]

namespace Cell

/-- What a state stands for: its place in the variable it was drawn from, or else itself. -/
def standOf (s : Int) (drawn : Option Draw) : Stand :=
  ⟨s, (sourceOf s drawn).1, (sourceOf s drawn).2.toNat⟩

/-- What a cell stands for that refers to no other. A variable with a single state needs no index;
any other takes the state at index `k`. -/
def Own (k : ℕ) : Cell → Stand → Prop
  | .literal s drawn, x => x = standOf s drawn
  | .free v, x => x.At v.states (if v.states.unique?.isSome then 0 else k % v.states.length)
  | _, _ => False

/-- What a cell stands for that refers to a slot standing for `y`. A mapping reads the index, and
beyond its end the last image counts; a shift reads the list and the index; a difference reads the
list alone and is free again unless it leaves a single state. -/
def Image (k : ℕ) : Cell → Stand → Stand → Prop
  | .binding _ _, y, x => x = y
  | .mapping _ images _ _, y, x => x.At images (min y.index (images.length - 1))
  | .operation _ .shift count _ _, y, x => x.At (y.source.shift count) y.index
  | .operation _ .minus _ operand _, y, x =>
    match (y.source.minus operand).unique? with
    | some s => x.At [s] 0
    | none => x.At (y.source.minus operand) (k % (y.source.minus operand).length)
  | _, _, _ => False

/-- What slot `i` stands for when `choice` gives the index of every free slot. -/
inductive Stands (cells : List Cell) (choice : ℕ → ℕ) : ℕ → Stand → Prop
  | own {i c x} (h : cells[i]? = some c) (hx : c.Own (choice i) x) : Stands cells choice i x
  | linked {i c x y} {j : ℕ} (h : cells[i]? = some c) (hr : c.ref? = some (j : Int))
      (hy : Stands cells choice j y) (hx : c.Image (choice i) y x) : Stands cells choice i x

/-- The states that the slots take together under a choice. -/
def Tuple (cells : List Cell) (choice : ℕ → ℕ) (tuple : List Int) : Prop :=
  tuple.length = cells.length ∧
    ∀ i s, tuple[i]? = some s → ∃ x, Stands cells choice i x ∧ x.state = s

/-- A literal that was drawn from a variable has its place there. -/
def Proper : Cell → Prop
  | .literal s drawn =>
    0 ≤ (sourceOf s drawn).2 ∧ (sourceOf s drawn).1[(sourceOf s drawn).2.toNat]? = some s
  | _ => True

/-- The slot takes any state of the variable, whatever the other slots take. -/
def Owns (cells : List Cell) (j : ℕ) (v : Variable) : Prop :=
  v.states.unique? = none ∧
    ∀ choice x, Stands cells choice j x ↔ x.At v.states (choice j % v.states.length)

variable {cells : List Cell} {choice : ℕ → ℕ} {i : ℕ} {x y : Stand}

lemma Owns.getElem? {j : ℕ} {v : Variable} (h : Owns cells j v) (hv : v.states ≠ []) :
    ∃ c, cells[j]? = some c := by
  obtain ⟨s, l, hl⟩ := List.exists_cons_of_ne_nil hv
  have hs : Stands cells (fun _ => 0) j ⟨s, v.states, 0⟩ := (h.2 _ _).mpr ⟨rfl, rfl, by simp [hl]⟩
  cases hs with
  | own h _ => exact ⟨_, h⟩
  | linked h _ _ _ => exact ⟨_, h⟩

def nonLiterals (cells : List Cell) : ℕ := (cells.filter (!·.isLiteral)).length

/-- A state written into a slot that held none. -/
lemma nonLiterals_set {k : ℕ} {c : Cell} {t : Int} {drawn : Option Draw} (hc : cells[k]? = some c)
    (hliteral : c.isLiteral = false) :
    nonLiterals (cells.set k (.literal t drawn)) < nonLiterals cells := by
  obtain ⟨hk, rfl⟩ := List.getElem?_eq_some_iff.mp hc
  have hpos : 0 < cells.countP (!·.isLiteral) :=
    List.countP_pos_iff.mpr ⟨cells[k], List.getElem_mem hk, by simp [hliteral]⟩
  rw [nonLiterals, nonLiterals, ← List.countP_eq_length_filter, ← List.countP_eq_length_filter,
    List.countP_set hk, if_pos (by simp [hliteral]), if_neg (by simp [isLiteral])]
  omega

/-- Splitting a free slot: with its state written in, the layout stands for what it stood for
under the choices that give this state. -/
lemma stands_set_iff {j : ℕ} {v : Variable} (hv : Owns cells j v) {k m : ℕ} {s : Int}
    (hm : m % v.states.length = k) (hs : v.states[k]? = some s) :
    Stands (cells.set j (.literal s (some ⟨v, k⟩))) choice i x ↔
      Stands cells (Function.update choice j m) i x := by
  have hat : ∀ y : Stand, y.At v.states k ↔ y = standOf s (some ⟨v, k⟩) := by
    have h0 : (standOf s (some ⟨v, k⟩)).At v.states k := ⟨rfl, rfl, hs⟩
    exact fun y => ⟨fun h => h.unique h0, fun h => h ▸ h0⟩
  have hown : ∀ y, Stands cells (Function.update choice j m) j y ↔ y = standOf s (some ⟨v, k⟩) := by
    intro y
    rw [hv.2, Function.update_self, hm, hat]
  obtain ⟨c, hc⟩ := hv.getElem? (by rintro h; simp [h] at hs)
  have hself : (cells.set j (.literal s (some ⟨v, k⟩)))[j]? = some (.literal s (some ⟨v, k⟩)) := by
    rw [List.getElem?_set_self (List.getElem?_eq_some_iff.mp hc).1]
  have hne : ∀ {i}, i ≠ j → (cells.set j (.literal s (some ⟨v, k⟩)))[i]? = cells[i]? :=
    fun h => List.getElem?_set_ne (Ne.symm h)
  constructor
  · intro h
    induction h with
    | @own i c x h hx =>
      by_cases hij : i = j
      · subst hij
        rw [hself] at h
        cases h
        exact (hown x).mpr hx
      · exact .own ((hne hij).symm.trans h) (by rwa [Function.update_of_ne hij])
    | @linked i c x y l h hr _ hx ih =>
      have hij : i ≠ j := by
        rintro rfl
        rw [hself] at h
        cases h
        simp [ref?] at hr
      exact .linked ((hne hij).symm.trans h) hr ih (by rwa [Function.update_of_ne hij])
  · intro h
    -- the split slot is settled by what it owns, before the induction looks at its cell
    have hsplit : ∀ y, Stands cells (Function.update choice j m) j y →
        Stands (cells.set j (.literal s (some ⟨v, k⟩))) choice j y :=
      fun y hy => .own hself ((hown y).mp hy)
    induction h with
    | @own i c x h hx =>
      by_cases hij : i = j
      · subst hij; exact hsplit x (.own h hx)
      · exact .own ((hne hij).trans h) (by rwa [Function.update_of_ne hij] at hx)
    | @linked i c x y l h hr hy hx ih =>
      by_cases hij : i = j
      · subst hij; exact hsplit x (.linked h hr hy hx)
      · exact .linked ((hne hij).trans h) hr ih (by rwa [Function.update_of_ne hij] at hx)

end Cell

/-- The value takes the state `x` when `pick` gives the state of every occurrence by its origin. -/
def Value.Takes (pick : Int → Int) : Value → Int → Prop
  | .state s _ _, x => x = s
  | .free v origin, x => x = pick origin ∧ x ∈ v.states

def Row.Matches (row : Row) (tuple : List Int) : Prop :=
  ∃ pick : Int → Int, List.Forall₂ (Value.Takes pick) row tuple

end RuleTable
