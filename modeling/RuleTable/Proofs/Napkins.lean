import RuleTable.Proofs.Layouts

/-!
Napkins with and without directions.

A direction in a napkin says nothing that its place does not say: it must name the position that
comes next, and a range stands for as many terms of the same value as it has positions. The value is
worked out once for a range and once for each of these terms, which makes no difference: a list of
states without a name gets its variable the first time and has it from then on, and what has a name
is not touched.
-/

namespace RuleTable

open Scope Text

/-! ### What terms cover -/

/-- The position that a label names, if it names one. -/
def Neighborhood.labeled? (nb : Neighborhood) (label : String) : Option ℕ :=
  (Direction.ofLabel? (upper (trim label))).bind nb.index?

/-- The term covers the positions: any single one if it has no direction, else the one that the
direction names, or all from there through the one that the second direction names. -/
inductive Term.Covers (nb : Neighborhood) (term : Term) : List ℕ → Prop
  | next (i : ℕ) (hd : term.direction = "") : Covers nb term [i]
  | single {i : ℕ} (hd : term.direction ≠ "") (ht : term.through = "")
    (hi : nb.labeled? term.direction = some i) : Covers nb term [i]
  | through {i j : ℕ} (hd : term.direction ≠ "") (ht : term.through ≠ "")
    (hi : nb.labeled? term.direction = some i) (hj : nb.labeled? term.through = some j)
    (hle : i ≤ j) : Covers nb term (List.range' i (j + 1 - i))

/-- The terms cover the parts, and these are all positions in order, each once. -/
def Neighborhood.Covered (nb : Neighborhood) (terms : List Term) (parts : List (List ℕ)) : Prop :=
  List.Forall₂ (Term.Covers nb) terms parts ∧ parts.flatten = List.range nb.size

def Term.unlabeled (term : Term) : Term := { term with direction := "", through := "" }

/-- What a term is spelled out to: itself if it has no direction, else a term without directions for
each position it covers. -/
def Term.spelledOut (term : Term) (part : List ℕ) : List Term :=
  if term.direction = "" then [term] else part.map fun _ => term.unlabeled

def spelledOut (terms : List Term) (parts : List (List ℕ)) : List Term :=
  (List.zipWith Term.spelledOut terms parts).flatten

lemma Term.Covers.ne_nil {nb : Neighborhood} {term : Term} {part : List ℕ}
    (h : term.Covers nb part) : part ≠ [] := by
  cases h with
  | next | single => exact List.cons_ne_nil _ _
  | @through i j _ _ _ _ hle =>
    rw [Nat.sub_add_comm hle]
    exact List.cons_ne_nil _ _

/-- A term is spelled out to copies of one term without direction. -/
lemma Term.Covers.spelledOut {nb : Neighborhood} {term : Term} {part : List ℕ}
    (h : term.Covers nb part) : ∃ u : Term, u.direction = "" ∧ u.value = term.value ∧
      term.spelledOut part = List.replicate part.length u := by
  cases h with
  | next i hd => exact ⟨term, hd, rfl, by simp [Term.spelledOut, hd]⟩
  | single hd | through hd => exact ⟨term.unlabeled, rfl, rfl, by simp [Term.spelledOut, hd]⟩

namespace Rule

variable {nb : Neighborhood} {span : Span} {term : Term}
    {terms : List Term} {given cells : List Cell}
  {parts : List (List ℕ)} {part : List ℕ} {next last : ℕ} {s s' : Scope} {e : Expr} {c : Cell}
  {result : Bool}

lemma position_ok_iff {label : String} {i : ℕ} :
    nb.position label span = .ok i ↔ nb.labeled? label = some i := by
  unfold Neighborhood.position Neighborhood.labeled? Direction.parse
  cases hlabel : Direction.ofLabel? (upper (trim label)) with
  | none => constructor <;> rintro ⟨⟩
  | some d =>
    have hrun : (locating .syntaxInconsistency span
        (liftM (Except.ok d : Except Failure Direction)) :
      Outcome Direction) = .ok d := rfl
    rw [hrun, Option.bind_some]
    cases hindex : nb.index? d with
    | none =>
      simp only [bind, Except.bind, hindex]
      constructor <;> rintro ⟨⟩
    | some k => simp [bind, Except.bind, pure, Except.pure, hindex]

lemma covers_of_lastPosition (h : lastPosition nb term next = .ok last) :
    next ≤ last ∧ term.Covers nb (List.range' next (last + 1 - next)) := by
  unfold lastPosition at h
  by_cases hd : term.direction = ""
  · rw [if_pos hd] at h
    cases h
    simpa using Term.Covers.next next hd
  rw [if_neg hd] at h
  obtain ⟨first, hfirst, hlast⟩ := outcome_bind_ok.mp h
  rw [position_ok_iff] at hfirst
  by_cases hlow : first < next
  · simp [hlow] at hlast
  by_cases hhigh : next < first
  · simp [hlow, hhigh] at hlast
  simp only [if_neg hlow, if_neg hhigh] at hlast
  obtain rfl : first = next := by omega
  by_cases ht : term.through = ""
  · rw [if_pos ht] at hlast
    cases hlast
    simpa using Term.Covers.single hd ht hfirst
  rw [if_neg ht] at hlast
  obtain ⟨j, hj, hend⟩ := outcome_bind_ok.mp hlast
  rw [position_ok_iff] at hj
  by_cases hle : j < first
  · simp [hle] at hend
  rw [if_neg hle] at hend
  cases hend
  exact ⟨by omega, .through hd ht hfirst hj (by omega)⟩

lemma lastPosition_of_covers (h : term.Covers nb part) (hhead : part.head? = some next) :
    lastPosition nb term next = .ok (next + part.length - 1) := by
  unfold lastPosition
  cases h with
  | next i hd =>
    rw [if_pos hd]
    rfl
  | @single i hd ht hi =>
    obtain rfl : i = next := Option.some.inj hhead
    rw [if_neg hd, position_ok_iff.mpr hi]
    simp [ht, pure, Except.pure, bind, Except.bind]
  | @through i j hd ht hi hj hle =>
    obtain rfl : i = next := by
      rw [Nat.sub_add_comm hle] at hhead
      exact Option.some.inj hhead
    rw [if_neg hd, position_ok_iff.mpr hi, position_ok_iff.mpr hj]
    have hlen : i + (j + 1 - i) - 1 = j := by omega
    simp [ht, hlen, Nat.not_lt.mpr hle, pure, Except.pure, bind, Except.bind]

/-! ### Working out a value again -/

/-- **Once more.** A cell that was worked out is found again and nothing is added. -/
lemma cell_again (h : runFrom (cell nb result e) s = (.ok c, s')) :
    runFrom (cell nb result e) s' = (.ok c, s') := by
  have halike : s.Alike s' := (cell_steps result e).run h
  cases cell_ok_iff.mp h with
  | int | ref | map | shift | minus | name | single => exact h
  | several he hl hu hv hf =>
    -- the list has a variable in the scope by now
    have hholds := anonymous_ok hv
    unfold Scope.Holds at hholds
    refine cell_ok_iff.mpr (.several he (halike.eval e ▸ hl) hu ?_ hf)
    rw [runFrom_anonymous, hholds]

/-! ### Napkins -/

lemma napkin_cons (hlast : lastPosition nb term given.length = .ok last)
    (hlt : given.length < nb.size) (terms : List Term) :
    napkin nb span (term :: terms) given = cell nb false term.value >>= fun c =>
      napkin nb span terms (given ++ List.replicate (last + 1 - given.length) c) := by
  refine eq_of_runFrom fun s => ?_
  rw [napkin, hlast]
  simp [runFrom_bind, Nat.not_le.mpr hlt]

lemma lastPosition_unlabeled (hd : term.direction = "") (next : ℕ) :
    lastPosition nb term next = .ok next := by
  rw [lastPosition, if_pos hd]
  rfl

/-- Copies of a term without directions are worked out like one term for all their positions. -/
lemma napkin_copies (hd : term.direction = "") (k : ℕ) (hle : given.length + (k + 1) ≤ nb.size)
    (terms : List Term) :
    napkin nb span (List.replicate (k + 1) term ++ terms) given =
      cell nb false term.value >>= fun c =>
      napkin nb span terms (given ++ List.replicate (k + 1) c) := by
  have hone : given.length + 1 - given.length = 1 := by omega
  induction k generalizing given with
  | zero =>
    rw [List.replicate_one, List.singleton_append,
      napkin_cons (lastPosition_unlabeled hd _) (by omega), hone]
  | succ k ih =>
    rw [List.replicate_succ, List.cons_append, napkin_cons (lastPosition_unlabeled hd _) (by omega),
      hone]
    refine eq_of_runFrom fun s => ?_
    rw [runFrom_bind, runFrom_bind]
    rcases hc : runFrom (cell nb false term.value) s with ⟨_ | c, s₁⟩
    · rfl
    · have hmore : given ++ List.replicate (k + 1 + 1) c =
          (given ++ List.replicate 1 c) ++ List.replicate (k + 1) c := by
        simp [List.replicate_succ]
      dsimp only
      rw [ih (by simp; omega) (by simp), runFrom_bind, cell_again hc, hmore]

/-- **Spelled out,** a napkin is laid out as before, from every scope and to every end. -/
lemma napkin_spelledOut (hcov : List.Forall₂ (Term.Covers nb) terms parts)
    (hflat : parts.flatten = List.range' given.length (nb.size - given.length)) :
    napkin nb span (spelledOut terms parts) given = napkin nb span terms given := by
  induction hcov generalizing given with
  | nil => rfl
  | @cons term part terms parts hterm hrest ih =>
    -- what the first term covers are the positions that come next, one at least
    obtain ⟨k, hk, rfl, hparts⟩ := List.range'_eq_append_iff.mp hflat.symm
    obtain ⟨k, rfl⟩ := Nat.exists_eq_add_one_of_ne_zero
      (n := k) (by rintro rfl; exact hterm.ne_nil rfl)
    obtain ⟨u, hd, hvalue, hout⟩ := hterm.spelledOut
    rw [List.length_range'] at hout
    have hlast := lastPosition_of_covers hterm rfl
    have hcopies : given.length + (List.range' given.length (k + 1)).length - 1 + 1 - given.length =
        k + 1 := by
      rw [List.length_range']
      omega
    rw [spelledOut, List.zipWith_cons_cons, List.flatten_cons, hout, ← spelledOut,
      napkin_copies hd k (by omega), napkin_cons hlast (by omega), hcopies, hvalue]
    refine congrArg _ (funext fun c => ih ?_)
    rw [hparts, List.length_append, List.length_replicate, Nat.mul_one, Nat.sub_sub]

/-- A napkin that is laid out covers the positions in order. -/
lemma covered_of_napkin (h : runFrom (napkin nb span terms given) s = (.ok cells, s')) :
    given.length ≤ nb.size ∧ ∃ parts, List.Forall₂ (Term.Covers nb) terms parts ∧
      parts.flatten = List.range' given.length (nb.size - given.length) := by
  induction terms generalizing given s with
  | nil =>
    rw [napkin] at h
    split at h
    · cases h
    next hlen =>
    have hlen : given.length = nb.size := by simpa using hlen
    exact ⟨hlen.le, [], .nil, by simp [hlen]⟩
  | cons term terms ih =>
    rw [napkin] at h
    obtain ⟨last, hlast, h⟩ := runFrom_outcome_bind_ok.mp h
    obtain ⟨hle, hcovers⟩ := covers_of_lastPosition hlast
    split at h
    · cases h
    obtain ⟨c, s₂, -, h⟩ := runFrom_bind_ok.mp h
    obtain ⟨hbound, parts, hparts, hflat⟩ := ih h
    rw [List.length_append, List.length_replicate] at hbound hflat
    refine ⟨by omega, _ :: parts, .cons hcovers hparts, ?_⟩
    rw [List.flatten_cons, hflat, List.range'_append_1]
    congr 1
    omega

lemma covered_of_laid (h : runFrom (napkin nb span terms []) s = (.ok cells, s')) :
    ∃ parts, nb.Covered terms parts := by
  obtain ⟨-, parts, hparts, hflat⟩ := covered_of_napkin h
  exact ⟨parts, hparts, by simpa [List.range_eq_range'] using hflat⟩

lemma covered_of_layOut {symmetry : Symmetry} {t : Transition} {w w' : Workspace} {rule : Rule}
    (h : runFrom (layOut nb symmetry t) w = (.ok rule, w')) :
    ∃ parts, nb.Covered t.napkin parts := by
  obtain ⟨initial, w₁, -, h⟩ := runFrom_bind_ok.mp h
  obtain ⟨neighbors, w₂, hn, -⟩ := runFrom_bind_ok.mp h
  exact covered_of_laid (onScope_ok hn)

/-- **Directions in napkins are only read.** A napkin is laid out, and a rule built, only if the
napkin's terms, in order, cover all positions, each once. Where they do, terms without directions
that say the same position by position give the same in place of it: the same cells, or the same
refusal, and the same scope, with its variables and the names still to be given; and so the same
rule of the transition. -/
theorem build_spelledOut (nb : Neighborhood) (symmetry : Option Symmetry) (t : Transition) :
    (∀ s cells s', runFrom (napkin nb t.span t.napkin []) s = (.ok cells, s') →
      ∃ parts, nb.Covered t.napkin parts) ∧
    (∀ w rule w', runFrom (build (some nb) symmetry t) w = (.ok rule, w') →
      ∃ parts, nb.Covered t.napkin parts) ∧
    ∀ parts, nb.Covered t.napkin parts →
      (∀ s, runFrom (napkin nb t.span (spelledOut t.napkin parts) []) s =
        runFrom (napkin nb t.span t.napkin []) s) ∧
      ∀ w, runFrom (build (some nb) symmetry { t with napkin := spelledOut t.napkin parts }) w =
        runFrom (build (some nb) symmetry t) w := by
  refine ⟨fun s cells s' => covered_of_laid, fun w rule w' h => ?_, fun parts hcov => ?_⟩
  · obtain ⟨_, _, _, hnb, hlaid, -⟩ := build_ok h
    cases hnb
    exact covered_of_layOut hlaid
  · have hsame : ∀ span, napkin nb span (spelledOut t.napkin parts) [] =
      napkin nb span t.napkin [] :=
      fun span => napkin_spelledOut hcov.1 (by simpa [List.range_eq_range'] using hcov.2)
    refine ⟨fun s => by rw [hsame], fun w => ?_⟩
    cases symmetry <;> simp only [build, layOut, hsame]

/-! The first term covers two positions with one variable, whose name is drawn from the seed. The
last term has no direction. -/

def living : Variable := { name := "_mszorh", states := [1, 2], anonymous := true }

def livingTerm : Term where
  direction := "N"
  through := " e"
  value := .set [.int "1" .nowhere, .int "2" .nowhere] false .nowhere

def labeledNapkin : List Term :=
  [livingTerm, { direction := "S", value := .ref ⟨"N", .nowhere⟩ },
    { value := .name "any" .nowhere }]

def unlabeledNapkin : List Term :=
  [livingTerm.unlabeled, livingTerm.unlabeled, { value := .ref ⟨"N", .nowhere⟩ },
    { value := .name "any" .nowhere }]

def labeledTransition : Transition where
  initial := .int "0" .nowhere
  napkin := labeledNapkin
  result := .int "1" .nowhere
  auxiliaries := []
  span := .nowhere

theorem build_spelledOut_labeled :
    Neighborhood.vonNeumann.Covered labeledNapkin [[0, 1], [2], [3]] ∧
      spelledOut labeledNapkin [[0, 1], [2], [3]] = unlabeledNapkin ∧
      (runFrom (napkin .vonNeumann .nowhere unlabeledNapkin []) ternaryScope).1 =
        .ok [.free living, .free living, .binding 1 .nowhere, .free ternary] ∧
      (runFrom (napkin .vonNeumann .nowhere unlabeledNapkin []) ternaryScope).2.vars =
        #[ternary, living] := by
  have hcov : Neighborhood.vonNeumann.Covered labeledNapkin [[0, 1], [2], [3]] :=
    ⟨.cons (.through (i := 0) (j := 1) (by decide) (by decide) (by cbv) (by cbv) (by decide))
      (.cons (.single (by decide) rfl (by cbv)) (.cons (.next 3 rfl) .nil)), rfl⟩
  have hsame := ((build_spelledOut .vonNeumann none labeledTransition).2.2 _ hcov).1 ternaryScope
  have hout : spelledOut labeledNapkin [[0, 1], [2], [3]] = unlabeledNapkin := rfl
  refine ⟨hcov, hout, ?_, ?_⟩
  · exact (congrArg Prod.fst (hout ▸ hsame)).trans (by cbv)
  · exact (congrArg (fun r => r.2.vars) (hout ▸ hsame)).trans (by cbv)

end Rule

end RuleTable
