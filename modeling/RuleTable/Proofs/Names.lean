import RuleTable.Proofs.Evaluation

/-!
The names of variables.

A name that is drawn was not in use before, and one that is declared must not be in use, so no two
variables of a scope have one name. A drawn name is an underscore and letters, so whatever is asked
of names holds of it if it holds of such words; declared names are as their author wrote them.
-/

namespace RuleTable

def IsWordChar (c : Char) : Bool := c.isAlphanum || c == '_'

def IsWord (name : String) : Prop := ∀ c ∈ name.toList, IsWordChar c = true

instance (name : String) : Decidable (IsWord name) := inferInstanceAs (Decidable (∀ c ∈ _, _))

def IsDrawn (name : String) : Prop :=
  ∃ cs, name = String.ofList ('_' :: cs) ∧ cs.length = 6 ∧ ∀ c ∈ cs, c.isLower = true

lemma IsDrawn.isWord {name : String} (h : IsDrawn name) : IsWord name := by
  obtain ⟨cs, rfl, -, hcs⟩ := h
  intro c hc
  rw [String.toList_ofList] at hc
  rcases List.mem_cons.mp hc with rfl | hc
  · decide
  · simp [IsWordChar, Char.isAlphanum, Char.isAlpha, hcs c hc]

lemma IsWord.notMem {name : String} {c : Char} (h : IsWord name) (hc : IsWordChar c = false) :
    c ∉ name.toList := by
  intro hmem
  rw [h c hmem] at hc
  cases hc

namespace Generator

lemma letter?_lt {tries n : ℕ} {g g' : Generator} (h : letter? tries g = some (n, g')) :
    n < 26 := by
  induction tries generalizing g with
  | zero => cases h
  | succ tries ih =>
    rw [letter?] at h
    simp only at h
    split at h
    · exact ih h
    · cases h
      have hx := g.draw.1.toNat_lt
      rw [Nat.div_lt_iff_lt_mul (by decide), unsignedBound]
      omega

lemma letters?_ok {k : ℕ} {g g' : Generator} {cs : List Char} (h : letters? k g = some (cs, g')) :
    cs.length = k ∧ ∀ c ∈ cs, c.isLower = true := by
  have hletter : ∀ n < 26, (Char.ofNat (97 + n)).isLower = true := by decide
  induction k generalizing g cs with
  | zero =>
    cases h
    exact ⟨rfl, List.forall_mem_nil _⟩
  | succ k ih =>
    obtain ⟨⟨n, g₁⟩, hn, h⟩ := Option.bind_eq_some_iff.mp h
    obtain ⟨⟨rest, g₂⟩, hrest, h⟩ := Option.bind_eq_some_iff.mp h
    cases h
    obtain ⟨hlength, hlower⟩ := ih hrest
    exact ⟨congrArg (· + 1) hlength, List.forall_mem_cons.mpr ⟨hletter n (letter?_lt hn), hlower⟩⟩

end Generator

namespace NameSource

lemma taken_reserve (names : NameSource) (name other : String) :
    (names.reserve name).taken other = true ↔ name = other ∨ names.taken other = true := by
  simp [taken, reserve]

/-- A name that is found was not taken; from then on it is, and no other besides. -/
lemma seek_ok {tries : ℕ} {names names' : NameSource} {name : String}
    (h : seek tries names = some (name, names')) :
    names.taken name = false ∧ IsDrawn name ∧
      ∀ other, names'.taken other = true ↔ name = other ∨ names.taken other = true := by
  induction tries generalizing names with
  | zero => cases h
  | succ tries ih =>
    obtain ⟨⟨cs, g⟩, hcs, h⟩ := Option.bind_eq_some_iff.mp h
    dsimp only at h
    split at h
    · obtain ⟨hnew, hdrawn, hnames⟩ := ih h
      exact ⟨hnew, hdrawn, hnames⟩
    · next hfree =>
      cases h
      exact ⟨Bool.eq_false_iff.mpr hfree, ⟨cs, rfl, Generator.letters?_ok hcs⟩,
        fun other => taken_reserve _ _ _⟩

lemma fresh?_ok {names names' : NameSource} {name : String}
    (h : fresh? names = some (name, names')) :
    names.taken name = false ∧ IsDrawn name ∧
      ∀ other, names'.taken other = true ↔ name = other ∨ names.taken other = true := by
  rw [fresh?] at h
  exact seek_ok h

end NameSource

namespace Scope

variable {s s' : Scope} {ok : String → Prop}

/-- The names of the variables are in use and different, and each is a word or as is asked of
declared names. -/
structure WellNamed (ok : String → Prop) (s : Scope) : Prop where
  taken : ∀ v ∈ s.vars, s.names.taken v.name = true
  distinct : (s.vars.toList.map (·.name)).Nodup
  spelled : ∀ v ∈ s.vars, IsWord v.name ∨ ok v.name

lemma WellNamed.apart (h : s.WellNamed ok) (v : Variable) (hv : v ∈ s.vars) (w : Variable)
    (hw : w ∈ s.vars) (hname : v.name = w.name) : v = w :=
  List.inj_on_of_nodup_map h.distinct (Array.mem_toList_iff.mpr hv)
    (Array.mem_toList_iff.mpr hw) hname

lemma WellNamed.push (h : s.WellNamed ok) {v : Variable} {names : NameSource}
    (hnew : s.names.taken v.name = false) (hspelled : IsWord v.name ∨ ok v.name)
    (hnames : ∀ other, names.taken other = true ↔ v.name = other ∨ s.names.taken other = true) :
    WellNamed ok { s with vars := s.vars.push v, names := names } := by
  have hother : v.name ∉ s.vars.toList.map (·.name) := by
    intro hmem
    obtain ⟨w, hw, he⟩ := List.mem_map.mp hmem
    rw [← he, h.taken w (Array.mem_toList_iff.mp hw)] at hnew
    cases hnew
  refine ⟨fun w hw => ?_, ?_, fun w hw => ?_⟩
  · rcases Array.mem_push.mp hw with hw | rfl
    · exact (hnames _).mpr (.inr (h.taken w hw))
    · exact (hnames _).mpr (.inl rfl)
  · rw [Array.toList_push, List.map_append]
    exact List.nodup_append_comm.mp (List.nodup_cons.mpr ⟨hother, h.distinct⟩)
  · rcases Array.mem_push.mp hw with hw | rfl
    · exact h.spelled w hw
    · exact hspelled

lemma WellNamed.notMem (h : s.WellNamed ok) {c : Char} (hc : IsWordChar c = false)
    (hok : ∀ name, ok name → c ∉ name.toList) {v : Variable} (hv : v ∈ s.vars) :
    c ∉ v.name.toList := by
  rcases h.spelled v hv with hword | hname
  · exact hword.notMem hc
  · exact hok _ hname

lemma Stocked.push (h : s.Stocked) {v : Variable} (names : NameSource)
    (hv : v.anonymous = false → v.states.Below s.stateCount ∧
      (v.states = [] → v.name = "live" ∧ s.stateCount = 1)) :
    Stocked { s with vars := s.vars.push v, names := names } := by
  refine ⟨h.pos, fun w hw hanon => ?_, fun w hw hanon hnil => ?_⟩
  · rcases Array.mem_push.mp hw with hw | rfl
    · exact h.below w hw hanon
    · exact (hv hanon).1
  · rcases Array.mem_push.mp hw with hw | rfl
    · exact h.live w hw hanon hnil
    · exact (hv hanon).2 hnil

/-- What holds of the scope of every section: names can be told apart, what has a name holds states,
and there is a variable for all of them. -/
structure Sound (ok : String → Prop) (s : Scope) : Prop where
  named : s.WellNamed ok
  stocked : s.Stocked
  any : (s.lookup "any").isSome

lemma Extends.isSome_lookup {name : String} (h : s.Extends s') (hs : (s.lookup name).isSome) :
    (s'.lookup name).isSome := by
  obtain ⟨v, hv⟩ := Option.isSome_iff_exists.mp hs
  exact Option.isSome_iff_exists.mpr ⟨v, h.find? hv⟩

lemma stocked_create {n : ℤ} (hn : 0 < n) {names : NameSource} (h : create n names = .ok s) :
    s.Stocked := by
  unfold create at h
  split at h
  · cases h
  cases h
  have hall : StateList.Below n.toNat ((List.range n.toNat).map Int.ofNat) := by
    intro x hx
    obtain ⟨i, hi, rfl⟩ := List.mem_map.mp hx
    rw [List.mem_range] at hi
    exact ⟨Int.natCast_nonneg i, Int.ofNat_lt.mpr hi⟩
  refine Stocked.push (Stocked.push ⟨by simpa using hn, by simp, by simp⟩ _ fun _ => ⟨hall, ?_⟩) _
    fun _ => ⟨hall.of_subset fun x hx => List.mem_of_mem_drop hx, fun hnil => ⟨rfl, ?_⟩⟩
  · intro hnil
    rw [List.map_eq_nil_iff, List.range_eq_nil] at hnil
    omega
  · rw [List.drop_eq_nil_iff, List.length_map, List.length_range] at hnil
    exact Nat.le_antisymm hnil (show 1 ≤ n.toNat by omega)

lemma wellNamed_create {n : ℤ} {seed : UInt64} (h : create n (.ofSeed seed) = .ok s) :
    s.WellNamed ok := by
  unfold create at h
  split at h
  · cases h
  cases h
  have hempty : ∀ name, (NameSource.ofSeed seed).taken name = false := by
    simp [NameSource.taken, NameSource.ofSeed]
  have hany : IsWord "any" := by simp [IsWord, IsWordChar]
  have hlive : IsWord "live" := by simp [IsWord, IsWordChar]
  refine WellNamed.push (WellNamed.push ⟨by simp, by simp, by simp⟩ (hempty _) (.inl hany)
    fun other => NameSource.taken_reserve _ _ _) ?_ (.inl hlive)
    fun other => NameSource.taken_reserve _ _ _
  rw [Bool.eq_false_iff, ne_eq, NameSource.taken_reserve, hempty]
  simp

lemma sound_create {n : ℤ} (hn : 0 < n) {seed : UInt64} (h : create n (.ofSeed seed) = .ok s) :
    s.Sound ok := by
  refine ⟨wellNamed_create h, stocked_create hn h, ?_⟩
  unfold create at h
  split at h
  · cases h
  cases h
  simp [lookup, declare]

/-- The variables are still there, and if the scope was in order it still is. -/
def Develops (ok : String → Prop) (s s' : Scope) : Prop :=
  s.Extends s' ∧ (s.Sound ok → s'.Sound ok)

instance : Std.Refl (Develops ok) := ⟨fun s => ⟨.refl s, id⟩⟩

instance : IsTrans Scope (Develops ok) :=
  ⟨fun _ _ _ h h' => ⟨h.1.trans h'.1, fun hs => h'.2 (h.2 hs)⟩⟩

/-- The search for a name is left open, since it has far more tries than can be counted through. -/
lemma addAnonymous_develops (name? : NameSource → Option (String × NameSource))
    (hname : ∀ {names name names'}, name? names = some (name, names') →
      names.taken name = false ∧ IsDrawn name ∧
        ∀ other, names'.taken other = true ↔ name = other ∨ names.taken other = true)
    (states : StateList) : Steps (Develops ok) (addAnonymous name? states) := by
  intro s
  have hext := addAnonymous_steps name? states s
  refine ⟨hext, fun hs => ?_⟩
  have hany := hext.isSome_lookup hs.any
  unfold addAnonymous at hany ⊢
  simp only [runFrom_bind, runFrom_get] at hany ⊢
  cases hn : name? s.names with
  | none => exact hs
  | some p =>
    rw [hn] at hany
    obtain ⟨hnew, hdrawn, hnames⟩ := hname hn
    exact ⟨hs.named.push hnew (.inl hdrawn.isWord) hnames, hs.stocked.push _ nofun, hany⟩

instance : Growth (Develops ok) where
  anonymous_steps states s := by
    rw [runFrom_anonymous]
    split
    · exact refl_of (Develops ok) s
    · exact addAnonymous_develops NameSource.fresh? NameSource.fresh?_ok states s

lemma runFrom_define (name : String) (states : StateList) (span : Span) (s : Scope) :
    runFrom (define name states span) s =
      if (s.lookup name).isSome then (.error (.refused (.of span (.alreadyDeclared name))), s)
      else if s.names.taken name then (.error (.refused (.of span (.generatedName name))), s)
      else if states.isEmpty then (.error (.refused (.of span (.emptyVariable name))), s)
      else (.ok ⟨name, states, false, span⟩, s.declare ⟨name, states, false, span⟩) := by
  unfold define
  rw [runFrom_bind, runFrom_get]
  dsimp only
  split
  · rfl
  split
  · rfl
  split <;> rfl

/-- A declaration that is refused leaves the scope as it is. -/
lemma define_cases (name : String) (states : StateList) (span : Span) (s : Scope) :
    (runFrom (define name states span) s).2 = s ∨
      s.names.taken name = false ∧ states ≠ [] ∧
        (runFrom (define name states span) s).2 = s.declare ⟨name, states, false, span⟩ := by
  rw [runFrom_define]
  split
  · exact .inl rfl
  split
  · exact .inl rfl
  next hfree =>
  split
  · exact .inl rfl
  next hne =>
  exact .inr ⟨by simpa using hfree, by simpa using hne, rfl⟩

lemma define_develops {name : String} (hname : IsWord name ∨ ok name) {states : StateList}
    (hbelow : s.Sound ok → states.Below s.stateCount) (span : Span) :
    s.Develops ok (runFrom (define name states span) s).2 := by
  obtain hsame | ⟨hfree, hne, hdeclared⟩ := define_cases name states span s
  · rw [hsame]
    exact refl_of (Develops ok) s
  rw [hdeclared]
  have hext : s.Extends (s.declare ⟨name, states, false, span⟩) := ⟨rfl, [_], Array.toList_push⟩
  refine ⟨hext, fun hs => ⟨?_, ?_, hext.isSome_lookup hs.any⟩⟩
  · exact hs.named.push hfree hname fun other => NameSource.taken_reserve _ _ _
  · exact hs.stocked.push _ fun _ => ⟨hbelow hs, fun hnil => absurd hnil hne⟩

/-- Declaring a variable by an expression keeps the scope in order. -/
lemma declaring_develops {name : String} (hname : IsWord name ∨ ok name) (value : Expr)
    (span : Span) : Steps (Develops ok) (declaring name value span) := by
  intro s
  simp only [declaring, runFrom_bind, runFrom_get, runFrom_outcome]
  cases hstates : s.eval value with
  | error e => exact refl_of (Develops ok) s
  | ok states => exact define_develops hname (fun hs => (eval_filled hs.stocked hstates).below) span

end Scope

end RuleTable
