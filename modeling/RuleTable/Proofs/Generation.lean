import RuleTable.Proofs.Compositions

/-!
The search for a generated group.

The list that is searched grows while it is read, and only its end ends the search. What is found is
distinct and there are finitely many permutations, so the end comes. Only generators are followed,
and on one side only; but a finite set of permutations that is closed under products has inverses,
so products with undone generators are among those found.
-/

namespace RuleTable.Relabeling

variable {n i : ℕ} {p : Relabeling} {gens word : List Relabeling} {found out : Distinct Relabeling}

/-- The search with as many rounds as it takes: each follows the next relabeling by every generator,
and the search ends where there is no next one. -/
inductive Search (gens : List Relabeling) : ℕ → Distinct Relabeling → Distinct Relabeling → Prop
  | done {i : ℕ} {found : Distinct Relabeling} (hend : found.items[i]? = none) :
    Search gens i found found
  | follow {i : ℕ} {found out : Distinct Relabeling} {p : Relabeling}
    (hp : found.items[i]? = some p)
    (hrest : Search gens (i + 1) (gens.foldl (fun d g => d.insert (p.andThen g)) found) out) :
    Search gens i found out

/-- The bound on the rounds is never met: when it runs out, all permutations there are have been
followed. -/
lemma Searched.search (hgens : ∀ g ∈ gens, IsPerm n g) {rounds : ℕ}
    (h : Searched n gens i found) (hr : count n ≤ rounds + i) :
    Search gens i found (Relabeling.closureFrom gens rounds i found) := by
  induction rounds generalizing i found with
  | zero =>
    have hlen := length_le_count h.sound.nodup fun p hp => (h.product p hp).isPerm hgens
    refine .done (Array.getElem?_eq_none ?_)
    rw [← Array.length_toList]
    exact hlen.trans (by omega)
  | succ rounds ih =>
    rw [Relabeling.closureFrom]
    cases hp : found.items[i]? with
    | none => exact .done hp
    | some p => exact .follow hp (ih (h.step (by simpa [Distinct.toList] using hp)) (by omega))

/-- What was found first stays first. -/
lemma Search.prefix_toList (h : Search gens i found out) (hs : found.Sound) :
    found.toList <+: out.toList := by
  induction h with
  | done => exact List.prefix_rfl
  | @follow i found out p hp hrest ih =>
    obtain ⟨hsound, -, hprefix⟩ := hs.foldl_insert (gens.map p.andThen)
    rw [List.foldl_map] at hsound hprefix
    exact hprefix.trans (ih hsound)

def product (n : ℕ) (word : List Relabeling) : Relabeling := word.foldl andThen (identity n)

lemma product_concat (g : Relabeling) : product n (word ++ [g]) = (product n word).andThen g := by
  simp [product]

/-- A word in generators and undone generators. -/
def WordIn (gens word : List Relabeling) : Prop := ∀ w ∈ word, ∃ g ∈ gens, w = g ∨ w = g.inverse

lemma Product.exists_word (h : Product n gens p) :
    ∃ word, WordIn gens word ∧ product n word = p := by
  induction h with
  | one => exact ⟨[], by simp [WordIn], rfl⟩
  | @snoc p g _ hg ih =>
    obtain ⟨word, hword, rfl⟩ := ih
    refine ⟨word ++ [g], fun w hw => ?_, product_concat g⟩
    rcases List.mem_append.mp hw with hw | hw
    · exact hword w hw
    · exact ⟨g, hg, .inl (List.mem_singleton.mp hw)⟩

lemma IsGroup.product_mem {s : List Relabeling} (h : IsGroup n s) (hgens : ∀ g ∈ gens, g ∈ s)
    (hword : WordIn gens word) : product n word ∈ s := by
  induction word using List.reverseRecOn with
  | nil => exact h.one
  | append_singleton word w ih =>
    rw [product_concat]
    refine h.mul _ (ih fun w hw => hword w (List.mem_append_left _ hw)) _ ?_
    obtain ⟨g, hg, rfl | rfl⟩ := hword w (by simp)
    · exact hgens w hg
    · exact h.closed.inverse g (hgens g hg)

/-- **Words** in generators and undone generators are what the search finds. -/
lemma mem_closure_iff_word (hgens : ∀ g ∈ gens, IsPerm n g) :
    p ∈ (closure n gens).toList ↔ ∃ word, WordIn gens word ∧ product n word = p := by
  refine ⟨fun hp => ((mem_closure_iff hgens).mp hp).exists_word, ?_⟩
  rintro ⟨word, hword, rfl⟩
  refine (isGroup_closure hgens).product_mem (fun g hg => ?_) hword
  exact (mem_closure_iff hgens).mpr (.of_mem (hgens g hg) hg)

/-- **The search finds the generated group.** It ends, however often it is extended, with a list
that has no relabeling and no key twice and starts with the identity. The list holds the products of
words in the generators and their inverses, and can be followed and undone within itself. -/
theorem closure_is_generated_group (hgens : ∀ g ∈ gens, IsPerm n g) :
    Search gens 0 (Distinct.empty.insert (identity n)) (closure n gens) ∧
      (closure n gens).toList.Nodup ∧ ((closure n gens).toList.map key).Nodup ∧
      (closure n gens).toList.head? = some (identity n) ∧
      (∀ p, p ∈ (closure n gens).toList ↔ ∃ word, WordIn gens word ∧ product n word = p) ∧
      Closed {p | p ∈ (closure n gens).toList} := by
  have hstart := searched_start n gens
  have hsearch : Search gens 0 _ (closure n gens) := hstart.search hgens (le_refl (count n + 0))
  have hnodup := (sound_closure hgens).nodup
  refine ⟨hsearch, hnodup, hnodup.map fun p q => numerals_inj, ?_,
    fun p => mem_closure_iff_word hgens, (isGroup_closure hgens).closed⟩
  obtain ⟨more, hmore⟩ := hsearch.prefix_toList hstart.sound
  rw [← hmore, Distinct.toList_insert Distinct.sound_empty]
  simp [Distinct.empty, Distinct.toList]

/-- One quarter turn generates the quarter turn back. -/
theorem closure_of_quarter_turn : (∀ g ∈ [[3, 0, 1, 2]], IsPerm 4 g) ∧
    (closure 4 [[3, 0, 1, 2]]).toList.head? = some [0, 1, 2, 3] ∧
      [1, 2, 3, 0] ∈ (closure 4 [[3, 0, 1, 2]]).toList := by
  have hgens : ∀ g ∈ [[3, 0, 1, 2]], IsPerm 4 g := by unfold IsPerm; decide
  obtain ⟨-, -, -, hhead, hmem, -⟩ := closure_is_generated_group hgens
  refine ⟨hgens, hhead, (hmem _).mpr ⟨[inverse [3, 0, 1, 2]], ?_, by decide⟩⟩
  exact fun w hw => ⟨_, List.mem_singleton_self _, .inr (List.mem_singleton.mp hw)⟩

end RuleTable.Relabeling
