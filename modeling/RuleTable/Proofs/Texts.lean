import RuleTable.Proofs.Separators
import RuleTable.Proofs.Shapes

/-!
What the texts of values and rows tell apart. A number is written without a comma and two numbers
are never written alike, so the text of a row tells what it is made of, provided it is known where
the variables stand.
-/

namespace RuleTable

/-- The values stand for the same: their keys are equal, and so are the variables they name. -/
def Value.Same : Value → Value → Prop
  | .free v o, .free v' o' => v = v' ∧ o = o'
  | .state t _ _, .state t' _ _ => t = t'
  | _, _ => False

/-- The name and the origin of a variable can be told from its text. -/
lemma Value.exists_free_of_key {u : Value} {v : Variable}
    {o : ℤ} (h : u.key = (Value.free v o).key) :
    ∃ w : Variable, u = .free w o ∧ w.name = v.name := by
  cases u with
  | state t d o' =>
    -- a dollar sign tells variables from states
    have hmem : '$' ∈ (toString t).toList := by
      rw [show toString t = _ from h]
      simp [Value.key]
    exfalso
    rcases mem_toString_int hmem with h | h <;> revert h <;> decide
  | free w o' =>
    have hsign : ∀ t : ℤ, '@' ∉ (toString t).toList := by
      intro t hmem
      rcases mem_toString_int hmem with h | h <;> revert h <;> decide
    have htext := congrArg String.toList h
    simp only [Value.key, toString_string, String.toList_append, List.append_assoc] at htext
    obtain ⟨hname, horigin⟩ := append_sep_inj_right (hsign o') (hsign o)
      (List.append_cancel_left htext)
    rw [toString_int_inj (String.toList_inj.mp horigin)]
    exact ⟨w, rfl, String.toList_inj.mp hname⟩

lemma Value.Alike.same_of_append {v v' : Value} (h : v.Alike v') {l l' : List Char}
    (he : v.key.toList ++ ',' :: l = v'.key.toList ++ ',' :: l') : v.Same v' ∧ l = l' := by
  cases h with
  | free w o => exact ⟨⟨rfl, rfl⟩, by simpa using he⟩
  | @state t t' d d' o o' _ =>
    obtain ⟨ht, hl⟩ := append_sep_inj (comma_notMem_toString t) (comma_notMem_toString t') he
    exact ⟨toString_int_inj (String.toList_inj.mp ht), hl⟩

lemma Value.Alike.same {v v' : Value} (h : v.Alike v') (he : v.key = v'.key) : v.Same v' :=
  (h.same_of_append (l := []) (by rw [he])).1

lemma Row.toList_key (row : Row) :
    row.key.toList = [','].intercalate (row.map (·.key.toList)) := by
  rw [Row.key, String.toList_intercalate, List.map_map]
  rfl

/-- Of rows that are alike the keys tell everything that a row stands for. -/
lemma Row.Alike.same {row row' : Row} (h : row.Alike row') (he : row.key = row'.key) :
    List.Forall₂ Value.Same row row' := by
  replace he : [','].intercalate (row.map (·.key.toList)) =
      [','].intercalate (row'.map (·.key.toList)) := by
    rw [← toList_key, ← toList_key, he]
  induction h with
  | nil => exact .nil
  | @cons v v' row row' hv hrow ih =>
    cases hrow with
    | nil =>
      exact .cons (hv.same (String.toList_inj.mp (by simpa [List.intercalate] using he))) .nil
    | @cons w w' rest rest' hw hrest =>
      simp only [List.map_cons, List.intercalate_cons_cons, List.append_assoc,
        List.singleton_append] at he ih
      obtain ⟨hsame, hrest'⟩ := hv.same_of_append he
      exact .cons hsame (ih hrest')

lemma Value.Same.takes {v v' : Value} {pick : Int → Int} {t : Int} (h : v.Same v')
    (ht : v.Takes pick t) : v'.Takes pick t := by
  cases v <;> cases v' <;> simp_all [Same, Takes]

lemma Row.matches_of_same {row row' : Row} {tuple : List Int}
    (h : List.Forall₂ Value.Same row row') (hm : row.Matches tuple) : row'.Matches tuple := by
  obtain ⟨pick, hp⟩ := hm
  refine ⟨pick, ?_⟩
  induction h generalizing tuple with
  | nil => exact hp
  | cons hv _ ih =>
    cases hp with
    | cons ht hp => exact .cons (hv.takes ht) (ih hp)

end RuleTable
