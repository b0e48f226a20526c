import RuleTable.Geometry.Neighborhood
import RuleTable.Proofs.Relabelings
import RuleTable.Proofs.Rotations

/-!
When turns of a neighborhood add up.

A turn by `a` gives place `i` the value of the place `i - a`, counted round the neighborhood, but it
takes that difference in words of 64 bits. Where the difference leaves the words it is a full turn
of the words too small. For two, four or eight places that is a number of full turns of the
neighborhood and makes no difference. For six places it is not, and the offsets within six of the
least word are not turned by as they say: places whose difference stays within the words are turned
rightly and the others wrongly.
-/

namespace RuleTable.Neighborhood

open Relabeling StateList

variable {nb : Neighborhood} {a b : Int64} {n i : ℕ} {j k : ℤ} {p q : Relabeling}

/-! ### Turns in integers -/

/-- The turn of `n` places by `k`, counted in integers. -/
def turn (n : ℕ) (k : ℤ) : Relabeling := (List.range n).map (turned n (-k))

lemma isPerm_turn (n : ℕ) (k : ℤ) : IsPerm n (turn n k) := perm_map_turned (-k)

lemma turned_add (hpos : 0 < n) (j k : ℤ) (i : ℕ) :
    turned n j (turned n k i) = turned n (j + k) i := by
  rw [← Nat.cast_inj (R := ℤ), cast_turned hpos, cast_turned hpos, cast_turned hpos,
    Int.emod_add_emod, add_assoc, add_comm k]

lemma getD_turn (hi : i < n) (k : ℤ) : (turn n k).getD i 0 = turned n (-k) i := by
  simp [turn, List.getD_eq_getElem?_getD, hi]

/-- Turns add up. -/
lemma turn_andThen (hpos : 0 < n) (j k : ℤ) : (turn n j).andThen (turn n k) = turn n (j + k) := by
  refine List.map_map.trans (List.map_congr_left fun i _ => ?_)
  rw [Function.comp_apply, getD_turn (turned_lt hpos _ _), turned_add hpos, neg_add]

lemma turn_eq_identity_iff (hpos : 0 < n) : turn n k = identity n ↔ (n : ℤ) ∣ k := by
  constructor
  · intro h
    have hzero := getD_turn hpos k
    rw [h, ← Nat.cast_inj (R := ℤ), cast_turned hpos] at hzero
    rw [← Int.dvd_neg, Int.dvd_iff_emod_eq_zero]
    simpa [identity, hpos] using hzero.symm
  · rintro ⟨m, rfl⟩
    refine (List.map_congr_left fun i hi => ?_).trans (List.map_id _)
    rw [← Nat.cast_inj (R := ℤ), cast_turned hpos, ← mul_neg, Int.add_mul_emod_self_left]
    exact Int.emod_eq_of_lt (by omega) (by exact_mod_cast List.mem_range.mp hi)

/-- A turn can be taken off again. -/
lemma eq_turn_of_andThen (hpos : 0 < n) (hp : p.length = n)
    (h : p.andThen (turn n k) = turn n (j + k)) : p = turn n j := by
  have hmem : ∀ i ∈ turn n (-k), i < (turn n k).length := by
    intro i hi
    rw [(isPerm_turn n k).length]
    exact (isPerm_turn n (-k)).mem_iff.mp hi
  calc p = p.andThen (turn n (k + -k)) := by
        rw [add_neg_cancel, (turn_eq_identity_iff hpos).mpr (Int.dvd_zero _), andThen_identity hp]
    _ = (p.andThen (turn n k)).andThen (turn n (-k)) := by
        rw [andThen_assoc hmem, turn_andThen hpos]
    _ = turn n j := by rw [h, turn_andThen hpos, add_neg_cancel_right]

/-- From either side. -/
lemma eq_turn_of_turn_andThen (hpos : 0 < n) (hq : ∀ i ∈ q, i < n)
    (h : (turn n j).andThen q = turn n (j + k)) : q = turn n k := by
  calc q = (turn n (-j + j)).andThen q := by
        rw [neg_add_cancel, (turn_eq_identity_iff hpos).mpr (Int.dvd_zero _), identity_andThen hq]
    _ = (turn n (-j)).andThen ((turn n j).andThen q) := by
        rw [← turn_andThen hpos, andThen_assoc (by rwa [(isPerm_turn n j).length])]
    _ = turn n k := by rw [h, turn_andThen hpos, neg_add_cancel_left]

/-! ### Turns in words -/

/-- The differences of a place and `a` are words, or the full turn of the words is a number of full
turns of the neighborhood. -/
def Exact (nb : Neighborhood) (a : Int64) : Prop :=
  nb.size - a.toInt ≤ signedBound ∨ nb.size ∣ unsignedBound

instance (nb : Neighborhood) (a : Int64) : Decidable (nb.Exact a) :=
  inferInstanceAs (Decidable (_ ∨ _))

lemma size_pos (nb : Neighborhood) : 0 < nb.size := by cases nb <;> decide

lemma toInt_sub_place (hi : i < nb.size) : (Int64.ofNat i - a).toInt =
    if i - a.toInt < signedBound then i - a.toInt else i - a.toInt - unsignedBound := by
  have hbounds := toInt_bounds a
  have hsize : nb.size ≤ 8 := by cases nb <;> decide
  have hword : (8 : ℤ) < signedBound := by decide
  have hturn : (unsignedBound : ℤ) = signedBound + signedBound := rfl
  rw [Int64.toInt_sub, Int64.toInt_ofNat_of_lt (by omega)]
  exact bmod_word (by omega) (by omega)

lemma length_rotateBy (nb : Neighborhood) (a : Int64) : (nb.rotateBy a).length = nb.size := by
  simp [rotateBy]

lemma lt_of_mem_rotateBy (hi : i ∈ nb.rotateBy a) : i < nb.size := by
  obtain ⟨m, -, rfl⟩ := List.mem_map.mp hi
  have hpos := size_pos nb
  have hlt := Int.emod_lt_of_pos (Int64.ofNat m - a).toInt (b := nb.size) (by omega)
  omega

/-- One place is turned as the offset says if its difference is a word, or if a turn of the words
does not show. -/
lemma rotateBy_place_iff (hi : i < nb.size) :
    ((Int64.ofNat i - a).toInt % nb.size).toNat = turned nb.size (-a.toInt) i ↔
      i - a.toInt < signedBound ∨ nb.size ∣ unsignedBound := by
  have hpos := size_pos nb
  rw [← Nat.cast_inj (R := ℤ), Int.toNat_of_nonneg (Int.emod_nonneg _ (by omega)), cast_turned hpos,
    toInt_sub_place hi, ← sub_eq_add_neg]
  split
  · next h => simp [h]
  · next h => simp [h, sub_emod_eq_iff]

/-- **The offset says what is done** exactly if it is exact. -/
lemma rotateBy_eq_turn_iff : nb.rotateBy a = turn nb.size a.toInt ↔ nb.Exact a := by
  have hpos := size_pos nb
  rw [rotateBy, turn, List.map_inj_left]
  simp only [List.mem_range]
  constructor
  · intro h
    have hlast := (rotateBy_place_iff (by omega)).mp (h (nb.size - 1) (by omega))
    exact hlast.imp_left fun hlt => by omega
  · exact fun h i hi => (rotateBy_place_iff hi).mpr (h.imp_left fun hle => by omega)

/-! ### The offsets that are not exact -/

lemma exact_iff : nb.Exact a ↔ nb ≠ .hexagonal ∨ 6 ≤ a.toInt + signedBound := by
  cases nb with
  | hexagonal =>
    have hsize : hexagonal.size = 6 := rfl
    have hturn : ¬ 6 ∣ unsignedBound := by decide
    simp only [Exact, hsize, hturn, or_false, ne_eq, not_true_eq_false, false_or]
    omega
  | _ => exact ⟨fun _ => .inl (by decide), fun _ => .inr (by decide)⟩

def low (s : Fin 6) : Int64 := Int64.ofInt (s - signedBound)

lemma exists_low (h : ¬ nb.Exact a) : nb = .hexagonal ∧ ∃ s, a = low s := by
  rw [exact_iff, not_or, not_not, not_le] at h
  obtain ⟨hnb, hlow⟩ := h
  have hleast := (toInt_bounds a).1
  refine ⟨hnb, ⟨(a.toInt + signedBound).toNat, by omega⟩, ?_⟩
  rw [low, Int.toNat_of_nonneg (by omega), add_sub_cancel_right, Int64.ofInt_toInt]

/-- Of the six, only the least word leaves the places a permutation: there all differences are wrong
alike. -/
lemma isPerm_low (s : Fin 6) :
    IsPerm hexagonal.size (hexagonal.rotateBy (low s)) ↔ low s = Int64.minValue := by
  unfold IsPerm
  revert s
  decide

lemma identity_low (s : Fin 6) :
    (hexagonal.rotateBy (low s) = identity hexagonal.size ↔ (hexagonal.size : ℤ) ∣ (low s).toInt) ↔
      low s ≠ Int64.minValue + 2 := by
  revert s
  decide

lemma low_andThen (s t : Fin 6) : (hexagonal.rotateBy (low s)).andThen
    (hexagonal.rotateBy (low t - low s)) = hexagonal.rotateBy (low t) → low t - low s = 0 := by
  revert s t
  decide

lemma andThen_low (s t : Fin 6) : (hexagonal.rotateBy (low t - low s)).andThen
    (hexagonal.rotateBy (low s)) = hexagonal.rotateBy (low t) → low t - low s = 0 := by
  revert s t
  decide

/-! ### The laws -/

lemma isPerm_rotateBy_iff : IsPerm nb.size (nb.rotateBy a) ↔ nb.Exact a ∨ a = Int64.minValue := by
  by_cases h : nb.Exact a
  · rw [rotateBy_eq_turn_iff.mpr h]
    simp [h, isPerm_turn]
  · obtain ⟨rfl, s, rfl⟩ := exists_low h
    simpa [h] using isPerm_low s

lemma rotateBy_eq_identity_iff :
    (nb.rotateBy a = identity nb.size ↔ (nb.size : ℤ) ∣ a.toInt) ↔
      nb.Exact a ∨ a ≠ Int64.minValue + 2 := by
  by_cases h : nb.Exact a
  · rw [rotateBy_eq_turn_iff.mpr h, turn_eq_identity_iff (size_pos nb)]
    simp [h]
  · obtain ⟨rfl, s, rfl⟩ := exists_low h
    simpa [h] using identity_low s

lemma rotateBy_zero (nb : Neighborhood) : nb.rotateBy 0 = identity nb.size := by
  cases nb <;> decide

/-- An offset that is not exact is so low that only a small one can be added. -/
lemma exact_of_add (hsum : (a + b).toInt = a.toInt + b.toInt) (ha : ¬ nb.Exact a) : nb.Exact b := by
  rw [exact_iff, not_or, not_le] at ha
  have hleast := (toInt_bounds (a + b)).1
  have hword : (12 : ℤ) < signedBound := by decide
  exact exact_iff.mpr (.inr (by omega))

/-- **Turns add up** if all three are exact, or one is none. -/
lemma rotateBy_andThen_iff (hsum : (a + b).toInt = a.toInt + b.toInt) :
    (nb.rotateBy a).andThen (nb.rotateBy b) = nb.rotateBy (a + b) ↔
      (nb.Exact a ∧ nb.Exact b ∧ nb.Exact (a + b)) ∨ a = 0 ∨ b = 0 := by
  have hpos := size_pos nb
  constructor
  · intro h
    by_cases ha : nb.Exact a
    · by_cases hb : nb.Exact b
      · -- the sum is turned by rightly, so it is exact
        rw [rotateBy_eq_turn_iff.mpr ha, rotateBy_eq_turn_iff.mpr hb,
          turn_andThen hpos, ← hsum] at h
        exact .inl ⟨ha, hb, rotateBy_eq_turn_iff.mp h.symm⟩
      · by_cases hab : nb.Exact (a + b)
        · rw [rotateBy_eq_turn_iff.mpr ha, rotateBy_eq_turn_iff.mpr hab, hsum] at h
          have hturn := eq_turn_of_turn_andThen hpos (fun i => lt_of_mem_rotateBy) h
          exact absurd (rotateBy_eq_turn_iff.mp hturn) hb
        · obtain ⟨rfl, s, rfl⟩ := exists_low hb
          obtain ⟨-, t, ht⟩ := exists_low hab
          obtain rfl : a = low t - low s := by rw [← ht, Int64.add_sub_cancel]
          rw [ht] at h
          exact .inr (.inl (andThen_low s t h))
    · have hb := exact_of_add hsum ha
      by_cases hab : nb.Exact (a + b)
      · rw [rotateBy_eq_turn_iff.mpr hb, rotateBy_eq_turn_iff.mpr hab, hsum] at h
        have hturn := eq_turn_of_andThen hpos (length_rotateBy nb a) h
        exact absurd (rotateBy_eq_turn_iff.mp hturn) ha
      · obtain ⟨rfl, s, rfl⟩ := exists_low ha
        obtain ⟨-, t, ht⟩ := exists_low hab
        obtain rfl : b = low t - low s := by
          rw [← ht, Int64.add_comm, Int64.add_sub_cancel]
        rw [ht] at h
        exact .inr (.inr (low_andThen s t h))
  · rintro (⟨ha, hb, hab⟩ | rfl | rfl)
    · rw [rotateBy_eq_turn_iff.mpr ha, rotateBy_eq_turn_iff.mpr hb,
        rotateBy_eq_turn_iff.mpr hab, hsum,
        turn_andThen hpos]
    · rw [rotateBy_zero, Int64.zero_add, identity_andThen fun i => lt_of_mem_rotateBy]
    · rw [rotateBy_zero, Int64.add_zero, andThen_identity (length_rotateBy nb a)]

/-- **When turns are an action of the integers.** A neighborhood is turned by `a`, in integers,
exactly if `a` is exact, which all offsets are but the six least words in the hexagonal
neighborhood. Exact offsets give permutations, and of the others only the least word does. An exact
offset leaves every place exactly if the size divides it, and this is said rightly of all others but
one. Where a sum of offsets is a word, their turns add up exactly if all three are exact or one of
them is 0. -/
theorem rotateBy_acts_iff (nb : Neighborhood) (a b : Int64) :
    (nb.rotateBy a = turn nb.size a.toInt ↔ nb.Exact a) ∧
    (nb.Exact a ↔ nb ≠ .hexagonal ∨ 6 ≤ a.toInt + signedBound) ∧
    (IsPerm nb.size (nb.rotateBy a) ↔ nb.Exact a ∨ a = Int64.minValue) ∧
    ((nb.rotateBy a = identity nb.size ↔ (nb.size : ℤ) ∣ a.toInt) ↔
      nb.Exact a ∨ a ≠ Int64.minValue + 2) ∧
    ((a + b).toInt = a.toInt + b.toInt →
      ((nb.rotateBy a).andThen (nb.rotateBy b) = nb.rotateBy (a + b) ↔
        (nb.Exact a ∧ nb.Exact b ∧ nb.Exact (a + b)) ∨ a = 0 ∨ b = 0)) :=
  ⟨rotateBy_eq_turn_iff, exact_iff, isPerm_rotateBy_iff,
    rotateBy_eq_identity_iff, rotateBy_andThen_iff⟩

/-! Six places next to the least word: the first is turned rightly and the others are not. -/

theorem rotateBy_acts_hexagonal :
    hexagonal.rotateBy (Int64.minValue + 1) = [1, 4, 5, 0, 1, 2] ∧
      ¬ IsPerm 6 (hexagonal.rotateBy (Int64.minValue + 1)) ∧
      moore.rotateBy Int64.minValue = identity 8 ∧
      (moore.rotateBy Int64.minValue).andThen (moore.rotateBy 3) =
        moore.rotateBy (Int64.minValue + 3) := by
  have hhex := (rotateBy_acts_iff .hexagonal (Int64.minValue + 1) 0).2.2.1
  obtain ⟨-, -, -, hone, hsum⟩ := rotateBy_acts_iff .moore Int64.minValue 3
  refine ⟨by decide, fun h => absurd (hhex.mp h) (by decide), ?_, ?_⟩
  · exact (hone.mpr (.inl (by decide))).mpr (by decide)
  · exact (hsum (by decide)).mpr (.inl (by decide))

end RuleTable.Neighborhood
