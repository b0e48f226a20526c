import RuleTable.Proofs.Names

/-!
The states of a scope with a history.

A scope comes from the empty one by declaring lists that were evaluated before, under a name or
without one. Whatever it evaluates is among its states, and so is what its variables hold; where
there are two states or more, none of these lists is empty. In turn every list of states but the
empty one can be written down.
-/

namespace RuleTable

/-! ### Numerals -/

namespace Text

variable {n : ℕ} {cs : List Char}

lemma digitValue?_of_isDigit {c : Char} (h : c.isDigit = true) :
    digitValue? c = some (c.toNat - '0'.toNat) ∧ c.toNat - '0'.toNat < 10 := by
  simp only [Char.isDigit, Bool.and_eq_true, decide_eq_true_eq] at h
  have hlo : '0' ≤ c := h.1
  have hhi : c ≤ '9' := h.2
  have hnine : c.toNat ≤ 57 := hhi
  have hzero : '0'.toNat = 48 := rfl
  refine ⟨?_, by omega⟩
  rw [digitValue?, if_pos ⟨hlo, hhi⟩]
  rfl

/-- Digits are read as the number they spell, if it fits in 64 bits. -/
lemma readDigits_of_isDigit (hcs : ∀ c ∈ cs, c.isDigit = true)
    (h : Nat.ofDigitChars 10 cs n < unsignedBound) :
    readDigits 10 false n cs = .ok (Nat.ofDigitChars 10 cs n) := by
  induction cs generalizing n with
  | nil => rfl
  | cons c cs ih =>
    obtain ⟨hc, hcs⟩ := List.forall_mem_cons.mp hcs
    obtain ⟨hvalue, hlt⟩ := digitValue?_of_isDigit hc
    rw [Nat.ofDigitChars_cons, Nat.mul_comm] at h ⊢
    -- what is read so far is no more than what all digits spell
    have hle : n * 10 + (c.toNat - '0'.toNat) ≤
        Nat.ofDigitChars 10 cs (n * 10 + (c.toNat - '0'.toNat)) := by
      have hpow := Nat.le_mul_of_pos_left (n * 10 + (c.toNat - '0'.toNat))
        (Nat.pow_pos (n := cs.length) (show 0 < 10 by omega))
      rw [Nat.ofDigitChars_eq_ofDigitChars_zero]
      omega
    rw [readDigits, if_neg (by simp), hvalue]
    dsimp only
    rw [if_neg (by omega), if_neg (by omega)]
    exact ih hcs h

lemma readUnsigned_toDigits (hn : n < unsignedBound) :
    readUnsigned .decimal (Nat.toDigits 10 n) = .ok n := by
  have hvalue : Nat.ofDigitChars 10 (Nat.toDigits 10 n) 0 = n :=
    Nat.ofDigitChars_toDigits (by omega) (by omega)
  rw [readUnsigned, if_neg (by simp [Nat.toDigits_ne_nil]),
    readDigits_of_isDigit (fun c hc => Nat.isDigit_of_mem_toDigits (by omega) (by omega) hc)
      (by rwa [hvalue]), hvalue]

lemma readSigned_toDigits (hn : n < unsignedBound) :
    readSigned .decimal (Nat.toDigits 10 n) = signed false (.ok n) := by
  have hdigit : ∀ c ∈ Nat.toDigits 10 n, c.isDigit = true :=
    fun c hc => Nat.isDigit_of_mem_toDigits (by omega) (by omega) hc
  rw [readSigned, readUnsigned_toDigits hn]
  · intro cs hcs
    exact absurd (hdigit '+' (by simp [hcs])) (by decide)
  · intro cs hcs
    exact absurd (hdigit '-' (by simp [hcs])) (by decide)

/-- **A number that fits in 64 bits** is read back from its decimal text. -/
lemma readInt?_toString {z : ℤ} (hz : -signedBound ≤ z ∧ z < signedBound) :
    readInt? (toString z) = some z := by
  have hbounds : signedBound < unsignedBound := by decide
  rw [readInt?, Int.toString_eq_repr, Int.repr_eq_if]
  split
  · next hneg =>
    obtain ⟨n, rfl⟩ := Int.eq_ofNat_of_zero_le hneg
    rw [Int.toNat_natCast, Nat.toList_repr, readSigned_toDigits (by omega),
      signed, if_neg (by simp),
      if_pos (by omega)]
    rfl
  · next hneg =>
    have hlist : ("-" ++ (-z).toNat.repr).toList = '-' :: Nat.toDigits 10 (-z).toNat := by
      rw [String.toList_append, Nat.toList_repr]
      rfl
    rw [hlist, readSigned, readUnsigned_toDigits (by omega), signed, if_pos rfl, if_pos (by omega)]
    simp only [Except.toOption, Option.some.injEq]
    omega

end Text

/-! ### Scopes -/

/-- The states are among the first `n`, and there are some if `n` is more than 1. -/
structure StateList.Ranges (n : ℕ) (l : StateList) : Prop where
  below : l.Below n
  ne_nil : 2 ≤ n → l ≠ []

namespace Scope

variable {n : ℕ} {s : Scope} {e : Expr} {l : StateList} {p : StateList × Bool} {v : Variable}

/-- The scopes for `n` states. A list is declared in the scope that evaluated it or in another
one. -/
inductive Reached (n : ℕ) : Scope → Prop
  | create {names : NameSource} {s : Scope} (h : Scope.create n names = .ok s) : Reached n s
  | define {s₀ s : Scope} {e : Expr} {l : StateList} (h₀ : Reached n s₀) (h : Reached n s)
      (he : s₀.eval e = .ok l) (name : String) (span : Span) :
      Reached n (runFrom (Scope.define name l span) s).2
  | anonymous {s₀ s : Scope} {e : Expr} {p : StateList × Bool} (h₀ : Reached n s₀) (h : Reached n s)
      (he : s₀.evalTarget e = .ok p) : Reached n (runFrom (Scope.anonymous p.1) s).2

/-! ### One scope -/

lemma Stocked.ranges (h : s.Stocked) (hv : v ∈ s.vars) (hanon : v.anonymous = false) :
    v.states.Ranges s.stateCount := by
  refine ⟨h.below v hv hanon, fun htwo hnil => ?_⟩
  have hone := (h.live v hv hanon hnil).2
  omega

/-- With two states or more there is no empty `live` to be about. -/
lemma sees_of_two (h : 2 ≤ s.stateCount) (e : Expr) : s.Sees e := by
  intro hone
  omega

lemma Stocked.evalTarget_ranges (h : s.Stocked) (he : s.evalTarget e = .ok p) :
    p.1.Ranges s.stateCount :=
  have hfilled := evalTarget_filled h he
  ⟨hfilled.below, fun htwo => hfilled.ne_nil (sees_of_two htwo e)⟩

lemma Stocked.eval_ranges (h : s.Stocked) (he : s.eval e = .ok l) : l.Ranges s.stateCount :=
  have hfilled := eval_filled h he
  ⟨hfilled.below, fun htwo => hfilled.ne_nil (sees_of_two htwo e)⟩

lemma exists_state {x : ℤ} (hcount : s.stateCount ≤ greatestLength)
    (hx : 0 ≤ x ∧ x < s.stateCount) :
    ∃ raw, s.state raw .nowhere = .ok x := by
  obtain ⟨k, rfl⟩ := Int.eq_ofNat_of_zero_le hx.1
  have hword : greatestLength < signedBound := by decide
  refine ⟨toString (k : ℤ), ?_⟩
  rw [state, Text.readInt?_toString (by omega)]
  dsimp only
  rw [if_neg (by simp; omega)]
  rfl

lemma exists_evalAll (hcount : s.stateCount ≤ greatestLength) (hl : l.Below s.stateCount) :
    ∃ es, evalAll s es = .ok l := by
  induction l with
  | nil => exact ⟨[], rfl⟩
  | cons x l ih =>
    obtain ⟨raw, hraw⟩ := exists_state hcount (hl x List.mem_cons_self)
    obtain ⟨es, hes⟩ := ih fun y hy => hl y (List.mem_cons_of_mem x hy)
    refine ⟨.int raw .nowhere :: es, ?_⟩
    rw [evalAll, evalTarget, hraw, hes]
    rfl

/-- Every list of states but the empty one is the value of a set. -/
lemma exists_eval (hcount : s.stateCount ≤ greatestLength)
    (hl : l.Below s.stateCount) (hne : l ≠ []) :
    ∃ e, s.eval e = .ok l := by
  obtain ⟨es, hes⟩ := exists_evalAll hcount hl
  refine ⟨.set es false .nowhere, ?_⟩
  rw [eval, evalTarget, hes]
  simp [hne, bind, Except.bind, pure, Except.pure, withoutEllipsis]

/-! ### Histories -/

/-- What every step keeps: what can be found by name is in order, and what has no name ranges over
the states. -/
structure Ranged (n : ℕ) (s : Scope) : Prop where
  count : s.stateCount = n
  length : n ≤ greatestLength
  stocked : s.Stocked
  unnamed : ∀ v ∈ s.vars, v.anonymous = true → v.states.Ranges n

lemma Ranged.vars (h : s.Ranged n) (hv : v ∈ s.vars) : v.states.Ranges n := by
  cases hanon : v.anonymous with
  | true => exact h.unnamed v hv hanon
  | false => exact h.count ▸ h.stocked.ranges hv hanon

lemma Ranged.push (h : s.Ranged n) (hv : v.states.Ranges n)
    (hnamed : v.anonymous = false → v.states ≠ []) (names : NameSource) :
    Ranged n { s with vars := s.vars.push v, names := names } := by
  refine ⟨h.count, h.length, h.stocked.push names fun hanon => ?_, fun w hw hanon => ?_⟩
  · exact ⟨h.count ▸ hv.below, fun hnil => absurd hnil (hnamed hanon)⟩
  · rcases Array.mem_push.mp hw with hw | rfl
    · exact h.unnamed w hw hanon
    · exact hv

lemma ranged_create {names : NameSource} (hn : 1 ≤ n) (h : create n names = .ok s) :
    s.Ranged n := by
  have hstocked := stocked_create (by omega) h
  unfold create at h
  split at h
  · cases h
  next hlength =>
  cases h
  refine ⟨Int.toNat_natCast n, ?_, hstocked, by simp [declare]⟩
  simpa using hlength

lemma Ranged.define (h : s.Ranged n) (hl : l.Ranges n) (name : String) (span : Span) :
    Ranged n (runFrom (define name l span) s).2 := by
  obtain hsame | ⟨-, hne, hdeclared⟩ := define_cases name l span s
  · rwa [hsame]
  · rw [hdeclared]
    exact h.push hl (fun _ => hne) _

lemma Ranged.addAnonymous (h : s.Ranged n) (hl : l.Ranges n)
    (name? : NameSource → Option (String × NameSource)) :
    Ranged n (runFrom (addAnonymous name? l) s).2 := by
  unfold Scope.addAnonymous
  simp only [runFrom_bind, runFrom_get]
  cases name? s.names with
  | none => exact h
  | some p => exact h.push (v := ⟨p.1, l, true, .nowhere⟩) hl nofun p.2

lemma Ranged.anonymous (h : s.Ranged n) (hl : l.Ranges n) :
    Ranged n (runFrom (anonymous l) s).2 := by
  rw [runFrom_anonymous]
  split
  · exact h
  · exact h.addAnonymous hl _

/-- **Every history** keeps to the states of the scope. -/
lemma Reached.ranged (hn : 1 ≤ n) (h : s.Reached n) : s.Ranged n := by
  induction h with
  | create h => exact ranged_create hn h
  | define h₀ h he name span ih₀ ih =>
    exact ih.define (ih₀.count ▸ ih₀.stocked.eval_ranges he) name span
  | anonymous h₀ h he ih₀ ih => exact ih.anonymous (ih₀.count ▸ ih₀.stocked.evalTarget_ranges he)

/-- **The states of a scope**: it evaluates lists of them only, its variables hold nothing else, and
none is empty where there are two states or more. It evaluates every list of them that is not
empty. -/
theorem Reached.evaluates_in_range (hn : 1 ≤ n) (h : s.Reached n) :
    s.stateCount = n ∧
    (∀ e l, s.eval e = .ok l → (∀ x ∈ l, 0 ≤ x ∧ x < n) ∧ (2 ≤ n → l ≠ [])) ∧
    (∀ e p, s.evalTarget e = .ok p → (∀ x ∈ p.1, 0 ≤ x ∧ x < n) ∧ (2 ≤ n → p.1 ≠ [])) ∧
    (∀ v ∈ s.vars, (∀ x ∈ v.states, 0 ≤ x ∧ x < n) ∧ (2 ≤ n → v.states ≠ [])) ∧
    ∀ l : StateList, (∀ x ∈ l, 0 ≤ x ∧ x < n) → l ≠ [] → ∃ e, s.eval e = .ok l := by
  have hranged := h.ranged hn
  obtain rfl := hranged.count
  refine ⟨rfl, fun e l he => ?_, fun e p he => ?_, fun v hv => ?_,
    fun l hbelow hne => exists_eval hranged.length hbelow hne⟩
  · obtain ⟨hbelow, hne⟩ := hranged.stocked.eval_ranges he
    exact ⟨hbelow, hne⟩
  · obtain ⟨hbelow, hne⟩ := hranged.stocked.evalTarget_ranges he
    exact ⟨hbelow, hne⟩
  · obtain ⟨hbelow, hne⟩ := hranged.vars hv
    exact ⟨hbelow, hne⟩

def threeStates : Scope where
  stateCount := 3
  vars := #[{ name := "any", states := [0, 1, 2] }, { name := "live", states := [1, 2] }]
  names := ((NameSource.ofSeed 0).reserve "any").reserve "live"

lemma reached_threeStates : threeStates.Reached 3 :=
  .create (show Scope.create 3 (.ofSeed 0) = .ok threeStates from rfl)

/-- The list 1, 2, 1, shifted so far that a state is lost on the way. -/
def overshot : Expr :=
  .binary .shift (.set [.int "1" .nowhere, .int "2" .nowhere, .int "1" .nowhere] false .nowhere)
    (.int "9223372036854775807" .nowhere) .nowhere

def withOvershot : Scope := threeStates.declare { name := "a", states := [0, 2, 1] }

lemma define_overshot : (runFrom (define "a" [0, 2, 1] .nowhere) threeStates).2 = withOvershot := by
  have hfree : threeStates.names.taken "a" = false := by
    simp [threeStates, NameSource.taken, NameSource.reserve, NameSource.ofSeed]
  unfold define
  rw [runFrom_bind, runFrom_get]
  simp only [hfree]
  rfl

theorem evaluates_in_range_overshot :
    threeStates.eval overshot = .ok [0, 2, 1] ∧ withOvershot.Reached 3 ∧
      withOvershot.eval (.name "a" .nowhere) = .ok [0, 2, 1] ∧
      (∀ e l, withOvershot.eval e = .ok l → (∀ x ∈ l, 0 ≤ x ∧ x < 3) ∧ l ≠ []) ∧
      ∀ v ∈ (runFrom (anonymous [2, 1]) withOvershot).2.vars,
        (∀ x ∈ v.states, 0 ≤ x ∧ x < 3) ∧ v.states ≠ [] := by
  have hshift : threeStates.eval overshot = .ok [0, 2, 1] := by cbv
  have hdeclared : withOvershot.Reached 3 :=
    define_overshot ▸ Reached.define reached_threeStates reached_threeStates hshift "a" .nowhere
  have htarget : withOvershot.evalTarget
      (.set [.int "2" .nowhere, .int "1" .nowhere] true .nowhere) = .ok ([2, 1], true) := by cbv
  obtain ⟨-, heval, -⟩ := hdeclared.evaluates_in_range (by decide)
  obtain ⟨-, -, -, hvars, -⟩ :=
    (Reached.anonymous hdeclared hdeclared htarget).evaluates_in_range (by decide)
  refine ⟨hshift, hdeclared, rfl, fun e l he => ?_, fun v hv => ?_⟩
  · exact ⟨(heval e l he).1, (heval e l he).2 (by decide)⟩
  · exact ⟨(hvars v hv).1, (hvars v hv).2 (by decide)⟩

end Scope

end RuleTable
