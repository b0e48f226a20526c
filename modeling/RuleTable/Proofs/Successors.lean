import RuleTable.Proofs.Arrangements

/-!
The orderings of a list, one made of the other.

An ordering is advanced in place: the last entry that is below its right neighbor changes places
with the last entry above it, and what stands to the right of it is turned round. Up to then the
entries there were falling, so no other ordering of them comes later; turned round they are rising,
and no other comes earlier. So nothing lies between an ordering and the one that it is advanced to,
and from the rising one the walk leads through all of them.
-/

namespace RuleTable

/-! ### Advancing an ordering -/

variable {α : Type}

/-- The entry at a place. To read outside of the row is a crash. -/
def entry (row : List α) (i : ℕ) : Outcome α := (row[i]?).elim (.error .crash) .ok

lemma entry_append (front rest : List α) (x : α) :
    entry (front ++ x :: rest) front.length = .ok x := by
  simp [entry]

def exchange (row : List α) (i j : ℕ) : Outcome (List α) := do
  let x ← entry row i
  let y ← entry row j
  return (row.set i y).set j x

lemma exchange_eq {row : List α} {i j : ℕ} {x y : α} (hx : entry row i = .ok x)
    (hy : entry row j = .ok y) : exchange row i j = .ok ((row.set i y).set j x) := by
  simp only [exchange, hx, hy, bind, Except.bind, pure, Except.pure]

lemma exchange_append (front u v : List α) (a b : α) :
    exchange (front ++ a :: (u ++ b :: v)) front.length (front ++ a :: u).length =
      .ok (front ++ b :: (u ++ a :: v)) := by
  have hb : entry (front ++ a :: (u ++ b :: v)) (front ++ a :: u).length = .ok b := by
    simpa using entry_append (front ++ a :: u) v b
  rw [exchange_eq (entry_append front _ a) hb]
  simp

/-- Turning round what follows an entry. -/
lemma turn_append (front rest : List α) (x : α) :
    (front ++ x :: rest).take (front.length + 1) ++
      ((front ++ x :: rest).drop (front.length + 1)).reverse = front ++ x :: rest.reverse := by
  have hlen : (front ++ [x]).length = front.length + 1 := by simp
  rw [← List.singleton_append, ← List.append_assoc, ← hlen, List.take_left, List.drop_left,
    List.append_assoc, List.singleton_append]

lemma exchange_perm (u v : List α) (a b : α) : (b :: (u ++ a :: v)).Perm (a :: (u ++ b :: v)) :=
  (List.perm_middle.cons b).trans ((List.Perm.swap a b _).trans (List.perm_middle.symm.cons a))

variable [LinearOrder α] {row other next : List α}

/-- The last place before `k` whose entry is below the next one. -/
def lastRise (row : List α) : (k : ℕ) → Outcome (Option ℕ)
  | 0 => return none
  | k + 1 => do
    if (← entry row k) < (← entry row (k + 1)) then return some k else lastRise row k

/-- The last place before `k` whose entry is above `x`. To find none is a crash. -/
def lastAbove (row : List α) (x : α) : (k : ℕ) → Outcome ℕ
  | 0 => .error .crash
  | k + 1 => do
    if x < (← entry row k) then return k else lastAbove row x k

/-- The next ordering of the row, if there is one. -/
def advance (row : List α) : Outcome (Option (List α)) := do
  match ← lastRise row (row.length - 1) with
  | none => return none
  | some i =>
    let j ← lastAbove row (← entry row i) row.length
    let row ← exchange row i j
    return some (row.take (i + 1) ++ (row.drop (i + 1)).reverse)

/-- Advancing from a row until there is no next one leads through these rows. -/
inductive Walk : List α → List (List α) → Prop
  | last {row : List α} (h : advance row = .ok none) : Walk row [row]
  | next {row next : List α} {rows : List (List α)} (h : advance row = .ok (some next))
    (hrest : Walk next rows) : Walk row (row :: rows)

/-- The search for a rise goes to the left, and what it has passed is falling. -/
lemma lastRise_spec (front : List α) {x : α} {fall : List α}
    (hfall : (x :: fall).Pairwise (· ≥ ·)) :
    (lastRise (front ++ x :: fall) front.length = .ok none ∧
      (front ++ x :: fall).Pairwise (· ≥ ·)) ∨
    ∃ front' a b fall', front ++ x :: fall = front' ++ a :: b :: fall' ∧ a < b ∧
      (b :: fall').Pairwise (· ≥ ·) ∧
      lastRise (front ++ x :: fall) front.length = .ok (some front'.length) := by
  induction front using List.reverseRecOn generalizing x fall with
  | nil => exact .inl ⟨rfl, hfall⟩
  | append_singleton front y ih =>
    have hy : entry (front ++ [y] ++ x :: fall) front.length = .ok y := by
      rw [List.append_assoc]
      exact entry_append front _ y
    have hx : entry (front ++ [y] ++ x :: fall) (front.length + 1) = .ok x := by
      simpa using entry_append (front ++ [y]) fall x
    have hstep : lastRise (front ++ [y] ++ x :: fall) (front ++ [y]).length =
        if y < x then .ok (some front.length)
        else lastRise (front ++ y :: x :: fall) front.length := by
      rw [List.length_append, List.length_singleton, lastRise, hy, hx]
      simp only [List.append_assoc, List.singleton_append]
      rfl
    rw [hstep, List.append_assoc, List.singleton_append]
    split
    · next hlt => exact .inr ⟨front, y, x, fall, rfl, hlt, hfall, rfl⟩
    · next hle =>
      refine ih (List.pairwise_cons.mpr ⟨fun z hz => ?_, hfall⟩)
      rcases List.mem_cons.mp hz with rfl | hz
      · exact not_lt.mp hle
      · exact (List.rel_of_pairwise_cons hfall hz).trans (not_lt.mp hle)

/-- The search for an entry above `x` goes to the left, and what it has passed is not above. -/
lemma lastAbove_spec {x : α} (front : List α) {low : List α} (hlow : ∀ y ∈ low, y ≤ x)
    (habove : ∃ y ∈ front, x < y) :
    ∃ front' b low', front ++ low = front' ++ b :: low' ∧ x < b ∧ (∀ y ∈ low', y ≤ x) ∧
      lastAbove (front ++ low) x front.length = .ok front'.length := by
  induction front using List.reverseRecOn generalizing low with
  | nil => simp at habove
  | append_singleton front y ih =>
    have hy : entry (front ++ [y] ++ low) front.length = .ok y := by
      rw [List.append_assoc]
      exact entry_append front _ y
    have hstep : lastAbove (front ++ [y] ++ low) x (front ++ [y]).length =
        if x < y then .ok front.length else lastAbove (front ++ y :: low) x front.length := by
      rw [List.length_append, List.length_singleton, lastAbove, hy]
      simp only [List.append_assoc, List.singleton_append]
      rfl
    rw [hstep, List.append_assoc, List.singleton_append]
    split
    · next hlt => exact ⟨front, y, low, rfl, hlt, hlow, rfl⟩
    · next hle =>
      refine ih (List.forall_mem_cons.mpr ⟨not_lt.mp hle, hlow⟩) ?_
      obtain ⟨z, hz, hxz⟩ := habove
      rcases List.mem_append.mp hz with hz | hz
      · exact ⟨z, hz, hxz⟩
      · exact absurd (List.mem_singleton.mp hz ▸ hxz) hle

lemma advance_eq {i j : ℕ} {x : α} (hrise : lastRise row (row.length - 1) = .ok (some i))
    (hx : entry row i = .ok x) (habove : lastAbove row x row.length = .ok j)
    (hnext : exchange row i j = .ok next) :
    advance row = .ok (some (next.take (i + 1) ++ (next.drop (i + 1)).reverse)) := by
  simp only [advance, hrise, hx, habove, hnext, bind, Except.bind, pure, Except.pure]

/-- **One step.** Only a falling row is not advanced. Any other row has a falling part of which some
entries are above the entry `a` before it; `b` is the last of them. -/
lemma advance_cases (row : List α) :
    (advance row = .ok none ∧ row.Pairwise (· ≥ ·)) ∨
    ∃ front a u b v, row = front ++ a :: (u ++ b :: v) ∧ (u ++ b :: v).Pairwise (· ≥ ·) ∧ a < b ∧
      (∀ x ∈ v, x ≤ a) ∧ advance row = .ok (some (front ++ b :: (u ++ a :: v).reverse)) := by
  rcases List.eq_nil_or_concat' row with rfl | ⟨start, x, rfl⟩
  · exact .inl ⟨rfl, .nil⟩
  have hlen : (start ++ [x]).length - 1 = start.length := by simp
  rcases lastRise_spec start (List.pairwise_singleton (· ≥ ·) x) with
    ⟨hnone, hfall⟩ | ⟨front, a, c, fall, hrow, hac, hfall, hrise⟩
  · refine .inl ⟨?_, hfall⟩
    rw [advance, hlen, hnone]
    rfl
  refine .inr ?_
  have hnone : ∀ y ∈ ([] : List α), y ≤ a := by simp
  obtain ⟨front', b, v, hrow', hab, hv, habove⟩ :=
    lastAbove_spec (start ++ [x]) hnone ⟨c, by simp [hrow], hac⟩
  rw [List.append_nil] at hrow' habove
  obtain ⟨u, rfl, hu⟩ : ∃ u, front' = front ++ a :: u ∧ c :: fall = u ++ b :: v := by
    rcases List.append_eq_append_iff.mp (hrow.symm.trans hrow') with ⟨z, rfl, hz⟩ | ⟨z, rfl, hz⟩
    · cases z with
      | nil => exact absurd (List.cons.inj hz).1 hab.ne
      | cons a' u =>
        obtain ⟨rfl, hu⟩ := List.cons.inj hz
        exact ⟨u, rfl, hu⟩
    · exfalso
      cases z with
      | nil => exact hab.ne' (List.cons.inj hz).1
      | cons b' z =>
        -- `c` is above `a`, so the search cannot have passed it
        refine (hv c ?_).not_gt hac
        rw [(List.cons.inj hz).2]
        simp
  rw [hu] at hrow hfall
  refine ⟨front, a, u, b, v, hrow, hfall, hab, hv, ?_⟩
  have ha : entry (start ++ [x]) front.length = .ok a := hrow ▸ entry_append front _ a
  have hexchange := exchange_append front u v a b
  rw [← hrow] at hexchange
  rw [← hlen] at hrise
  rw [advance_eq hrise ha habove hexchange, turn_append]

/-- No search leaves the row. -/
lemma advance_ok (row : List α) : ∃ step, advance row = .ok step := by
  rcases advance_cases row with ⟨hnone, -⟩ | ⟨_, _, _, _, _, -, -, -, -, hsome⟩
  exacts [⟨_, hnone⟩, ⟨_, hsome⟩]

/-! ### Nothing lies between -/

lemma fork_lt {x y : α} (h : x < y) (front l l' : List α) : front ++ x :: l < front ++ y :: l' := by
  induction front with
  | nil => exact List.cons_lt_cons_iff.mpr (.inl h)
  | cons z front ih => exact List.cons_lt_cons_iff.mpr (.inr ⟨rfl, ih⟩)

/-- An ordering of a list that is in order differs from it first at an entry that comes later. -/
lemma exists_fork {r : α → α → Prop} (h : row.Pairwise r)
    (hp : other.Perm row) (hne : other ≠ row) :
    ∃ front x y l l', row = front ++ x :: l ∧ other = front ++ y :: l' ∧ x ≠ y ∧ r x y := by
  induction row generalizing other with
  | nil => exact absurd (List.perm_nil.mp hp) hne
  | cons x row ih =>
    cases other with
    | nil => simp at hp
    | cons y other =>
      by_cases hxy : x = y
      · subst hxy
        obtain ⟨front, a, b, l, l', rfl, rfl, hab⟩ :=
          ih h.of_cons hp.cons_inv fun he => hne (he ▸ rfl)
        exact ⟨x :: front, a, b, l, l', rfl, rfl, hab⟩
      · have hy := (List.mem_cons.mp (hp.mem_iff.mp List.mem_cons_self)).resolve_left (Ne.symm hxy)
        exact ⟨[], x, y, row, other, rfl, rfl, hxy, List.rel_of_pairwise_cons h hy⟩

lemma le_of_rising (h : row.Pairwise (· ≤ ·)) (hp : other.Perm row) : row ≤ other := by
  by_cases hne : other = row
  · exact hne.ge
  · obtain ⟨front, x, y, l, l', rfl, rfl, hxy, hle⟩ := exists_fork h hp hne
    exact (fork_lt (lt_of_le_of_ne hle hxy) front l l').le

lemma le_of_falling (h : row.Pairwise (· ≥ ·)) (hp : other.Perm row) : other ≤ row := by
  by_cases hne : other = row
  · exact hne.le
  · obtain ⟨front, x, y, l, l', rfl, rfl, hxy, hge⟩ := exists_fork h hp hne
    exact (fork_lt (lt_of_le_of_ne hge hxy.symm) front l' l).le

/-- Where the first entry has to grow, it grows to `b`, the least above it, and the others follow in
rising order. -/
lemma grown_le {a b : α} {u v : List α} (hfall : (u ++ b :: v).Pairwise (· ≥ ·)) (hab : a < b)
    (hv : ∀ x ∈ v, x ≤ a) (hp : other.Perm (a :: (u ++ b :: v)))
    (hlt : a :: (u ++ b :: v) < other) :
    b :: (u ++ a :: v).reverse ≤ other := by
  obtain ⟨hu, hbv, hub⟩ := List.pairwise_append.mp hfall
  cases other with
  | nil => simp at hp
  | cons d other =>
    rcases List.cons_lt_cons_iff.mp hlt with had | ⟨rfl, hlater⟩
    · have hd : d ∈ u ++ b :: v :=
        (List.mem_cons.mp (hp.mem_iff.mp List.mem_cons_self)).resolve_left had.ne'
      have hbd : b ≤ d := by
        rcases List.mem_append.mp hd with hd | hd
        · exact hub d hd b List.mem_cons_self
        · rcases List.mem_cons.mp hd with rfl | hd
          · exact le_rfl
          · exact absurd had (hv d hd).not_gt
      rcases hbd.lt_or_eq with hbd | rfl
      · exact (List.cons_lt_cons_iff.mpr (.inl hbd)).le
      · have hrest : other.Perm (u ++ a :: v) := (hp.trans (exchange_perm u v b a)).cons_inv
        have hrising : (u ++ a :: v).reverse.Pairwise (· ≤ ·) := by
          rw [List.pairwise_reverse]
          refine List.pairwise_append.mpr ⟨hu, List.pairwise_cons.mpr ⟨hv, hbv.of_cons⟩, ?_⟩
          intro x hx y hy
          have hbx : b ≤ x := hub x hx b List.mem_cons_self
          rcases List.mem_cons.mp hy with rfl | hy
          · exact hab.le.trans hbx
          · exact ((hv y hy).trans hab.le).trans hbx
        exact List.cons_le_cons b (le_of_rising hrising (hrest.trans (List.reverse_perm _).symm))
    · exact absurd hlater (le_of_falling hfall hp.cons_inv).not_gt

/-- What comes first after a row does so behind any entries. -/
lemma append_least (front : List α)
    (h : ∀ other, other.Perm row → row < other → next ≤ other) :
    ∀ other, other.Perm (front ++ row) → front ++ row < other → front ++ next ≤ other := by
  induction front with
  | nil => exact h
  | cons z front ih =>
    intro other hp hlt
    cases other with
    | nil => simp at hp
    | cons y other =>
      rcases List.cons_lt_cons_iff.mp hlt with hzy | ⟨rfl, hrest⟩
      · exact (List.cons_lt_cons_iff.mpr (.inl hzy)).le
      · exact List.cons_le_cons z (ih other hp.cons_inv hrest)

/-- **The next ordering.** A row is advanced to the first of its orderings that comes after it. -/
lemma advance_some (h : advance row = .ok (some next)) :
    next.Perm row ∧ row < next ∧ ∀ other, other.Perm row → row < other → next ≤ other := by
  rcases advance_cases row with ⟨hnone, -⟩ | ⟨front, a, u, b, v, rfl, hfall, hab, hv, hsome⟩
  · rw [hnone] at h
    cases h
  rw [hsome] at h
  cases h
  refine ⟨?_, fork_lt hab front _ _, ?_⟩
  · exact .append_left front (((List.reverse_perm _).cons b).trans (exchange_perm u v a b))
  · exact append_least front fun other => grown_le hfall hab hv

/-- A row that is not advanced comes last. -/
lemma advance_none (h : advance row = .ok none) (hp : other.Perm row) : other ≤ row := by
  rcases advance_cases row with ⟨-, hfall⟩ | ⟨front, a, u, b, v, rfl, -, -, -, hsome⟩
  · exact le_of_falling hfall hp
  · rw [hsome] at h
    cases h

/-! ### All orderings -/

/-- **The whole walk.** If these are the orderings from a row on, in order, then advancing leads
through them. -/
lemma walk_of_orderings {rows : List (List α)} (horder : (row :: rows).Pairwise (· < ·))
    (hmem : ∀ r, r ∈ row :: rows ↔ r.Perm row ∧ row ≤ r) : Walk row (row :: rows) := by
  induction rows generalizing row with
  | nil =>
    obtain ⟨step, hstep⟩ := advance_ok row
    cases step with
    | none => exact .last hstep
    | some next =>
      obtain ⟨hp, hlt, -⟩ := advance_some hstep
      exact absurd (List.mem_singleton.mp ((hmem next).mpr ⟨hp, hlt.le⟩)) hlt.ne'
  | cons next rows ih =>
    obtain ⟨hfirst, horder⟩ := List.pairwise_cons.mp horder
    obtain ⟨hp, -⟩ := (hmem next).mp (by simp)
    have hlt : row < next := hfirst next List.mem_cons_self
    have hnext : advance row = .ok (some next) := by
      obtain ⟨step, hstep⟩ := advance_ok row
      cases step with
      | none => exact absurd hlt (advance_none hstep hp).not_gt
      | some first =>
        -- the next ordering is among those that follow, and the first of these is not before it
        obtain ⟨hp', hlt', hleast⟩ := advance_some hstep
        have hin := (List.mem_cons.mp ((hmem first).mpr ⟨hp', hlt'.le⟩)).resolve_left hlt'.ne'
        rcases List.mem_cons.mp hin with rfl | hin
        · exact hstep
        · exact absurd (List.rel_of_pairwise_cons horder hin) (hleast next hp hlt).not_gt
    refine .next hnext (ih horder fun r => ?_)
    constructor
    · intro hr
      refine ⟨(((hmem r).mp (List.mem_cons_of_mem _ hr)).1).trans hp.symm, ?_⟩
      rcases List.mem_cons.mp hr with rfl | hr
      · exact le_rfl
      · exact (List.rel_of_pairwise_cons horder hr).le
    · rintro ⟨hr, hle⟩
      exact (List.mem_cons.mp ((hmem r).mpr ⟨hr.trans hp, (hlt.trans_le hle).le⟩)).resolve_left
        (hlt.trans_le hle).ne'

/-- **Every ordering once.** The arrangements of a rising list are its orderings in strictly
increasing order, the list itself first. Advancing from the list never reads outside of a row and
ends after leading through exactly these. -/
theorem arrangements_enumerate {xs : List α} (hs : xs.Pairwise (· ≤ ·)) :
    Walk xs (arrangements xs.length xs) ∧
      (arrangements xs.length xs).head? = some xs ∧
      (arrangements xs.length xs).Pairwise (· < ·) ∧
      (arrangements xs.length xs).Nodup ∧
      ∀ ys, ys ∈ arrangements xs.length xs ↔ ys.Perm xs := by
  have horder := pairwise_arrangements (k := xs.length) hs
  have hmem : ∀ ys, ys ∈ arrangements xs.length xs ↔ ys.Perm xs := fun ys => mem_arrangements rfl
  obtain ⟨rows, hrows⟩ : ∃ rows, arrangements xs.length xs = xs :: rows := by
    cases hall : arrangements xs.length xs with
    | nil => simpa [hall] using (hmem xs).mpr (.refl xs)
    | cons r rows =>
      rw [hall] at horder hmem
      rcases List.mem_cons.mp ((hmem xs).mpr (.refl xs)) with rfl | hin
      · exact ⟨rows, rfl⟩
      · have hle := le_of_rising hs ((hmem r).mp List.mem_cons_self)
        exact absurd (List.rel_of_pairwise_cons horder hin) hle.not_gt
  rw [hrows] at horder hmem ⊢
  refine ⟨walk_of_orderings horder fun r => ?_, rfl, horder, horder.imp ne_of_lt, hmem⟩
  rw [hmem]
  exact ⟨fun hp => ⟨hp, le_of_rising hs hp⟩, And.left⟩

/-- Equal entries do not change places with each other. -/
theorem arrangements_enumerate_repeated : [-1, 0, 0].Pairwise (· ≤ · : ℤ → ℤ → Prop) ∧
    Walk [-1, 0, 0] (arrangements 3 [-1, 0, (0 : ℤ)]) ∧
    arrangements 3 [-1, 0, (0 : ℤ)] = [[-1, 0, 0], [0, -1, 0], [0, 0, -1]] := by
  have hs : [-1, 0, 0].Pairwise (· ≤ · : ℤ → ℤ → Prop) := by decide
  exact ⟨hs, (arrangements_enumerate hs).1, by decide⟩

end RuleTable
