import RuleTable.Proofs.Evaluation
import RuleTable.Proofs.Relabelings

/-!
When a shift is a rotation.

A shift by `k` writes the state at place `i` to the place `i + k`, counted round the list, but it
takes that sum in words of 64 bits. Where a sum leaves the words it is a full turn of the words too
small, which is no number of full turns of the list unless the length divides it. Then two states
are written to one place, another place keeps the 0 that it began with, and a state is lost.
-/

namespace RuleTable.StateList

variable {n i j : ℕ} {k : Int64} {l : StateList}

/-! ### Places -/

/-- The place of the `i`-th of `n` states after a shift by `k`, counted in integers. -/
def turned (n : ℕ) (k : ℤ) (i : ℕ) : ℕ := ((i + k) % n).toNat

/-- The sums of `k` and a place are words, or the full turn of the words is a number of full turns
of the list. -/
def Exact (n : ℕ) (k : Int64) : Prop := k.toInt + n ≤ signedBound ∨ n ∣ unsignedBound

instance (n : ℕ) (k : Int64) : Decidable (Exact n k) := inferInstanceAs (Decidable (_ ∨ _))

/-- What leaves the words above is taken to be a full turn of the words smaller. -/
lemma bmod_word {z : ℤ} (hleast : -signedBound ≤ z) (hmost : z < unsignedBound) :
    z.bmod (2 ^ 64) = if z < signedBound then z else z - unsignedBound := by
  unfold signedBound at hleast ⊢
  unfold unsignedBound at hmost ⊢
  split
  · exact Int.bmod_eq_of_le (by omega) (by omega)
  · rw [← Int.sub_bmod_right]
    exact Int.bmod_eq_of_le (by omega) (by omega)

lemma toInt_add_place (hword : n < signedBound) (hi : i < n) : (Int64.ofNat i + k).toInt =
    if i + k.toInt < signedBound then i + k.toInt else i + k.toInt - unsignedBound := by
  have hbounds := toInt_bounds k
  have hturn : (unsignedBound : ℤ) = signedBound + signedBound := rfl
  rw [Int64.toInt_add, Int64.toInt_ofNat_of_lt (by unfold signedBound at hword; omega)]
  exact bmod_word (by omega) (by omega)

lemma cast_turned (hpos : 0 < n) (k : ℤ) (i : ℕ) : (turned n k i : ℤ) = (i + k) % n :=
  Int.toNat_of_nonneg (Int.emod_nonneg _ (by omega))

lemma cast_shiftTarget (hpos : 0 < n) (k : Int64) (i : ℕ) :
    (shiftTarget n k i : ℤ) = (Int64.ofNat i + k).toInt % n :=
  Int.toNat_of_nonneg (Int.emod_nonneg _ (by omega))

lemma turned_lt (hpos : 0 < n) (k : ℤ) (i : ℕ) : turned n k i < n := by
  have hlt := Int.emod_lt_of_pos (i + k) (b := n) (by omega)
  rw [← cast_turned hpos] at hlt
  omega

lemma shiftTarget_lt (hpos : 0 < n) (k : Int64) (i : ℕ) : shiftTarget n k i < n := by
  have hlt := Int.emod_lt_of_pos (Int64.ofNat i + k).toInt (b := n) (by omega)
  rw [← cast_shiftTarget hpos] at hlt
  omega

lemma turned_inj {k : ℤ} (hi : i < n) (hj : j < n) (h : turned n k i = turned n k j) : i = j := by
  have hpos : 0 < n := by omega
  have hmod : (i + k) % n = (j + k) % n := by rw [← cast_turned hpos, ← cast_turned hpos, h]
  have hsame : (i : ℤ) % n = j % n := Int.emod_add_cancel_right k |>.mp hmod
  rw [Int.emod_eq_of_lt (by omega) (by omega), Int.emod_eq_of_lt (by omega) (by omega)] at hsame
  omega

/-- A full turn of the words shows unless it is a number of full turns of the list. -/
lemma sub_emod_eq_iff (x : ℤ) : (x - unsignedBound) % n = x % n ↔ n ∣ unsignedBound := by
  rw [Int.emod_eq_emod_iff_emod_sub_eq_zero, ← Int.dvd_iff_emod_eq_zero,
    show x - unsignedBound - x = -(unsignedBound : ℤ) by ring, Int.dvd_neg, Int.natCast_dvd_natCast]

lemma shiftTarget_eq_turned_iff (hword : n < signedBound) (hi : i < n) :
    shiftTarget n k i = turned n k.toInt i ↔ i + k.toInt < signedBound ∨ n ∣ unsignedBound := by
  have hpos : 0 < n := by omega
  rw [← Nat.cast_inj (R := ℤ), cast_shiftTarget hpos, cast_turned hpos, toInt_add_place hword hi]
  split
  · next h => simp [h]
  · next h => simp [h, sub_emod_eq_iff]

lemma Exact.shiftTarget_eq (h : Exact n k) (hword : n < signedBound) (hi : i < n) :
    shiftTarget n k i = turned n k.toInt i := by
  refine (shiftTarget_eq_turned_iff hword hi).mpr (h.imp_left fun hle => ?_)
  omega

/-- Two states go to one place where sums leave the words and the turn of the words shows. -/
lemma exists_collision (hword : n < signedBound) (h : ¬ Exact n k) :
    ∃ i < n, ∃ j < n, i ≠ j ∧ shiftTarget n k i = shiftTarget n k j := by
  have hgreatest := (toInt_bounds k).2
  rw [Exact, not_or, not_le] at h
  obtain ⟨hfar, hturn⟩ := h
  have hpos : 0 < n := by omega
  -- the places from `m` on leave the words, and are then `r` places short
  obtain ⟨m, hm⟩ : ∃ m : ℕ, (m : ℤ) = signedBound - k.toInt :=
    ⟨_, Int.toNat_of_nonneg (by omega)⟩
  have hr : 0 < unsignedBound % n := Nat.pos_of_ne_zero fun h0 => hturn (Nat.dvd_of_mod_eq_zero h0)
  have hrn : unsignedBound % n < n := Nat.mod_lt _ hpos
  have hshort : ∀ {i j : ℕ}, i < m → m ≤ j → j < n → (j : ℤ) - (unsignedBound % n : ℕ) = i →
      shiftTarget n k i = shiftTarget n k j := by
    intro i j hi hj hjn he
    rw [← Nat.cast_inj (R := ℤ), cast_shiftTarget hpos, cast_shiftTarget hpos,
      toInt_add_place hword (by omega), toInt_add_place hword hjn,
      if_pos (by omega), if_neg (by omega),
      Int.emod_eq_emod_iff_emod_sub_eq_zero, ← Int.dvd_iff_emod_eq_zero]
    refine ⟨(unsignedBound / n : ℕ), ?_⟩
    have hdiv : (n : ℤ) * (unsignedBound / n : ℕ) + (unsignedBound % n : ℕ) = unsignedBound := by
      exact_mod_cast Nat.div_add_mod unsignedBound n
    linarith
  by_cases hle : m ≤ unsignedBound % n
  · exact ⟨0, hpos, unsignedBound % n, hrn, by omega, hshort (by omega) hle hrn (by simp)⟩
  · exact ⟨m - unsignedBound % n, by omega, m, by omega, by omega,
      hshort (by omega) le_rfl (by omega) (by omega)⟩

/-- Then some place is reached by no state. -/
lemma exists_unreached (hword : n < signedBound) (h : ¬ Exact n k) :
    ∃ j < n, ∀ i < n, shiftTarget n k i ≠ j := by
  obtain ⟨i, hi, j, hj, hij, hsame⟩ := exists_collision hword h
  have hpos : 0 < n := by omega
  let place (i : Fin n) : Fin n := ⟨shiftTarget n k i, shiftTarget_lt hpos k i⟩
  have hnot : ¬ Function.Injective place := fun hinj =>
    hij (Fin.mk.inj (@hinj ⟨i, hi⟩ ⟨j, hj⟩ (Fin.ext hsame)))
  rw [Finite.injective_iff_surjective, Function.Surjective] at hnot
  push Not at hnot
  obtain ⟨p, hp⟩ := hnot
  exact ⟨p, p.isLt, fun i hi he => hp ⟨i, hi⟩ (Fin.ext he)⟩

/-! ### Writing the states to their places -/

lemma getElem?_foldl_set_of_ne {t : ℕ → ℕ} {pairs : List (ℤ × ℕ)} (h : ∀ p ∈ pairs, t p.2 ≠ j)
    (out : StateList) : (pairs.foldl (fun out p => out.set (t p.2) p.1) out)[j]? = out[j]? := by
  induction pairs generalizing out with
  | nil => rfl
  | cons p pairs ih =>
    rw [List.forall_mem_cons] at h
    rw [List.foldl_cons, ih h.2, List.getElem?_set_ne h.1]

/-- What is written to a place stays there if nothing else is written to it. -/
lemma getElem?_foldl_set_of_mem {t : ℕ → ℕ} {pairs : List (ℤ × ℕ)} {out : StateList} {x : ℤ}
    (hx : (x, i) ∈ pairs) (hlt : t i < out.length)
    (halone : ∀ q ∈ pairs, t q.2 = t i → q = (x, i)) :
    (pairs.foldl (fun out p => out.set (t p.2) p.1) out)[t i]? = some x := by
  induction pairs generalizing out with
  | nil => cases hx
  | cons q pairs ih =>
    rw [List.forall_mem_cons] at halone
    rw [List.foldl_cons]
    by_cases hlater : (x, i) ∈ pairs
    · exact ih hlater (by rwa [List.length_set]) halone.2
    · obtain rfl := (List.mem_cons.mp hx).resolve_right hlater
      rw [getElem?_foldl_set_of_ne fun q hq he => hlater (halone.2 q hq he ▸ hq),
        List.getElem?_set_self hlt]

lemma getElem?_shift_unreached (h : ∀ i < l.length, shiftTarget l.length k i ≠ j) :
    (l.shift k)[j]? = (List.replicate l.length (0 : ℤ))[j]? :=
  getElem?_foldl_set_of_ne (t := shiftTarget l.length k)
    (fun p hp => h p.2 (List.snd_lt_of_mem_zipIdx hp)) _

/-- **One state.** It arrives where the sum in integers says. -/
lemma Exact.getElem?_shift (h : Exact l.length k) (hword : l.length < signedBound)
    (hi : i < l.length) : (l.shift k)[turned l.length k.toInt i]? = l[i]? := by
  have htarget : ∀ {i : ℕ}, i < l.length → shiftTarget l.length k i = turned l.length k.toInt i :=
    fun hi => h.shiftTarget_eq hword hi
  have hp : (l[i], i) ∈ l.zipIdx := List.mem_zipIdx_iff_getElem?.mpr (List.getElem?_eq_getElem hi)
  rw [← htarget hi, List.getElem?_eq_getElem hi]
  refine getElem?_foldl_set_of_mem (t := shiftTarget l.length k) hp ?_ fun q hq he => ?_
  · rw [List.length_replicate]
    exact shiftTarget_lt (by omega) k i
  · have hq' := List.snd_lt_of_mem_zipIdx hq
    rw [htarget hq', htarget hi] at he
    have hplace := turned_inj hq' hi he
    have hstate := List.mem_zipIdx_iff_getElem?.mp hq
    rw [hplace, List.getElem?_eq_getElem hi] at hstate
    exact Prod.ext (Option.some.inj hstate).symm hplace

lemma perm_map_turned (k : ℤ) : ((List.range n).map (turned n k)).Perm (List.range n) := by
  have hnodup : ((List.range n).map (turned n k)).Nodup := by
    refine List.Nodup.map_on (fun i hi j hj he => ?_) List.nodup_range
    exact turned_inj (List.mem_range.mp hi) (List.mem_range.mp hj) he
  refine (List.subperm_of_subset hnodup fun j hj => ?_).perm_of_length_le (by simp)
  obtain ⟨i, hi, rfl⟩ := List.mem_map.mp hj
  rw [List.mem_range] at hi ⊢
  exact turned_lt (by omega) k i

/-- **All states** are there again, each as often as before. -/
lemma Exact.perm_shift (h : Exact l.length k) (hword : l.length < signedBound) :
    (l.shift k).Perm l := by
  have hsame : (List.range l.length).map (l.getD · 0) =
      ((List.range l.length).map (turned l.length k.toInt)).map ((l.shift k).getD · 0) := by
    rw [List.map_map]
    refine List.map_congr_left fun i hi => ?_
    rw [Function.comp_apply, List.getD_eq_getElem?_getD, List.getD_eq_getElem?_getD,
      h.getElem?_shift hword (List.mem_range.mp hi)]
  have hperm := (perm_map_turned (n := l.length) k.toInt).map ((l.shift k).getD · 0)
  have hshifted := map_getD_range (l.shift k) 0
  rw [length_shift] at hshifted
  rw [← hsame, map_getD_range, hshifted] at hperm
  exact hperm.symm

lemma turned_turned (hi : i < n) (k : ℤ) : turned n (-k) (turned n k i) = i := by
  have hpos : 0 < n := by omega
  rw [← Nat.cast_inj (R := ℤ), cast_turned hpos, cast_turned hpos, Int.emod_add_emod]
  rw [add_neg_cancel_right]
  exact Int.emod_eq_of_lt (by omega) (by omega)

/-- Shifting back undoes the shift. -/
lemma Exact.shift_shift_neg (h : Exact l.length k) (hback : Exact l.length (-k))
    (hword : l.length < signedBound) (hk : k ≠ Int64.minValue) : (l.shift k).shift (-k) = l := by
  have hlen := length_shift l k
  refine List.ext_getElem? fun i => ?_
  by_cases hi : i < l.length
  · have hpos : 0 < l.length := by omega
    rw [← hlen] at hback hword
    have hthere := hback.getElem?_shift hword (i := turned l.length k.toInt i)
      (hlen ▸ turned_lt hpos _ i)
    rw [hlen, toInt_neg_of_ne hk, turned_turned hi, h.getElem?_shift (hlen ▸ hword) hi] at hthere
    exact hthere
  · rw [List.getElem?_eq_none (by rw [length_shift, hlen]; omega), List.getElem?_eq_none (by omega)]

/-! ### Where states are lost -/

def upTo (n : ℕ) : StateList := (List.range n).map fun (i : ℕ) => (i : ℤ) + 1

lemma length_upTo (n : ℕ) : (upTo n).length = n := by simp [upTo]

lemma zero_notMem_upTo (n : ℕ) : (0 : ℤ) ∉ upTo n := by
  intro h
  obtain ⟨i, -, hi⟩ := List.mem_map.mp h
  omega

lemma nodup_upTo (n : ℕ) : (upTo n).Nodup :=
  List.nodup_range.map fun i j h => by simpa using h

/-- A place that no state reaches holds 0. -/
lemma zero_mem_shift (hword : l.length < signedBound) (h : ¬ Exact l.length k) :
    (0 : ℤ) ∈ l.shift k := by
  obtain ⟨j, hj, hfree⟩ := exists_unreached hword h
  have hzero := getElem?_shift_unreached hfree
  rw [List.getElem?_replicate, if_pos hj] at hzero
  exact List.mem_of_getElem? hzero

/-- And then a state is lost, if there was no 0 and no state twice. -/
lemma exists_lost (hword : n < signedBound) (h : ¬ Exact n k) :
    ∃ x ∈ upTo n, x ∉ (upTo n).shift k := by
  by_contra hall
  push Not at hall
  have hzero := zero_mem_shift (l := upTo n) (k := k) (by rwa [length_upTo]) (by rwa [length_upTo])
  have hnodup : (0 :: upTo n).Nodup := List.nodup_cons.mpr ⟨zero_notMem_upTo n, nodup_upTo n⟩
  have hsub : (0 :: upTo n) ⊆ (upTo n).shift k := List.cons_subset.mpr ⟨hzero, hall⟩
  have hle := (List.subperm_of_subset hnodup hsub).length_le
  rw [length_shift, List.length_cons] at hle
  omega

/-- **When a shift is a rotation.** Every list of `n` states is rotated by `k` places, in integers,
exactly if the sums of `k` and a place are words or `n` divides the full turn of the words. These
are also the shifts by which no list of that length loses a state. Shifting by `-k` gives every list
back exactly if both shifts are of this kind. -/
theorem shift_rotates_iff (hword : n < signedBound) (k : Int64) :
    ((∀ l : StateList, l.length = n → ∀ i < n, (l.shift k)[turned n k.toInt i]? = l[i]?) ↔
      Exact n k) ∧
    ((∀ l : StateList, l.length = n → (l.shift k).Perm l) ↔ Exact n k) ∧
    (k ≠ Int64.minValue → ((∀ l : StateList, l.length = n → (l.shift k).shift (-k) = l) ↔
      Exact n k ∧ Exact n (-k))) := by
  have hlen := length_upTo n
  refine ⟨⟨fun h => ?_, ?_⟩, ⟨fun h => ?_, ?_⟩, fun hk => ⟨fun h => ⟨?_, ?_⟩, ?_⟩⟩
  · by_contra hnot
    obtain ⟨x, hx, hlost⟩ := exists_lost hword hnot
    obtain ⟨i, hi⟩ := List.mem_iff_getElem?.mp hx
    have hlt : i < n := hlen ▸ (List.getElem?_eq_some_iff.mp hi).1
    exact hlost (List.mem_of_getElem? ((h (upTo n) hlen i hlt).trans hi))
  · rintro h l rfl i hi
    exact h.getElem?_shift hword hi
  · by_contra hnot
    obtain ⟨x, hx, hlost⟩ := exists_lost hword hnot
    exact hlost ((h (upTo n) hlen).mem_iff.mpr hx)
  · rintro h l rfl
    exact h.perm_shift hword
  · by_contra hnot
    obtain ⟨x, hx, hlost⟩ := exists_lost hword hnot
    -- what is lost does not come back, and it is not 0
    have hback : x ∈ ((upTo n).shift k).shift (-k) := (h (upTo n) hlen).symm ▸ hx
    rcases mem_shift hback with rfl | hback
    · exact zero_notMem_upTo n hx
    · exact hlost hback
  · by_contra hnot
    have hlen' : ((upTo n).shift k).length = n := (length_shift _ _).trans hlen
    have hzero := zero_mem_shift (l := (upTo n).shift k) (k := -k) (by rwa [hlen']) (by rwa [hlen'])
    rw [h (upTo n) hlen] at hzero
    exact zero_notMem_upTo n hzero
  · rintro ⟨h, hback⟩ l rfl
    exact h.shift_shift_neg hback hword hk

/-! Three states do not divide the words: the first is overwritten by the second. -/

theorem shift_rotates_three : shift [1, 2, 3] Int64.maxValue = [0, 2, 3] ∧
    (¬ ∀ l : StateList, l.length = 3 → (l.shift Int64.maxValue).Perm l) ∧
    ∀ l : StateList, l.length = 4 → (l.shift Int64.maxValue).Perm l := by
  have hthree := (shift_rotates_iff (n := 3) (by decide) Int64.maxValue).2.1
  have hfour := (shift_rotates_iff (n := 4) (by decide) Int64.maxValue).2.1
  exact ⟨by decide, fun h => absurd (hthree.mp h) (by decide), hfour.mpr (by decide)⟩

end RuleTable.StateList
