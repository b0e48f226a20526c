import RuleTable.Interchange.Expression
import RuleTable.Proofs.Ranges

/-!
Reading expressions that were written down.

An expression is written as a value of the interchange form: numbers and names as they are, sets as
lists, everything else as a mapping with one key. What is written is read back, all of it at the
place where it is read, provided that its parts can be told apart: a name must not look like a
number or like the ellipsis, and nothing may be left out.
-/

namespace RuleTable

open Text Yaml Interchange

/-! ### Writing -/

def Op.key : Op → String
  | .times => "repeat"
  | .cycle => "repeat_to"
  | .minus => "minus"
  | .shift => "rotate"
  | .other symbol => symbol

def Yaml.Datum.keyed (key : String) (d : Datum) : Datum := .map [(.text key, d)]

def Yaml.Datum.record (order : Pairs → Pairs) (fields : List (String × Datum)) : Datum :=
  .map (order (fields.map fun f => (.text f.1, f.2)))

namespace Expr

mutual

/-- The value that an expression is written as. -/
def written (order : Pairs → Pairs) : Expr → Datum
  | .int raw _ =>
    match readInt? raw with
    | some n => .int n
    | none => .text raw
  | .name ident _ => .text ident
  | .set elems ellipsis _ =>
    .list (allWritten order elems ++ if ellipsis then [.text "..."] else [])
  | .range lo hi _ => .keyed "range" (.list [lo.written order, hi.written order])
  | .binary op left right _ => .keyed op.key (.list [left.written order, right.written order])
  | .complement operand live _ =>
    .keyed (if live then "not_live" else "not") (operand.written order)
  | .ref cell => .keyed "ref" (.text cell.target)
  | .map cell image _ =>
    .keyed "map" (.record order [("ref", .text cell.target), ("to", image.written order)])
  | .refOp cell op arg _ =>
    .keyed "refop" (.record order
      [("ref", .text cell.target), ("op", .text op.symbol), ("arg", arg.written order)])
  | .missing => .null

def allWritten (order : Pairs → Pairs) : List Expr → List Datum
  | [] => []
  | e :: es => e.written order :: allWritten order es

end

mutual

/-- The same expression, all of it at one place. -/
def placed (span : Span) : Expr → Expr
  | .int raw _ => .int raw span
  | .name ident _ => .name ident span
  | .set elems ellipsis _ => .set (allPlaced span elems) ellipsis span
  | .range lo hi _ => .range (lo.placed span) (hi.placed span) span
  | .binary op left right _ => .binary op (left.placed span) (right.placed span) span
  | .complement operand live _ => .complement (operand.placed span) live span
  | .ref cell => .ref ⟨cell.target, span⟩
  | .map cell image _ => .map ⟨cell.target, span⟩ (image.placed span) span
  | .refOp cell op arg _ => .refOp ⟨cell.target, span⟩ op (arg.placed span) span
  | .missing => .missing

def allPlaced (span : Span) : List Expr → List Expr
  | [] => []
  | e :: es => e.placed span :: allPlaced span es

end

/-- What is said by this part of an expression can be written so that nothing else is. -/
def Legible : Expr → Prop
  | .int raw _ => ∃ z : ℤ, -signedBound ≤ z ∧ z < signedBound ∧ raw = toString z
  | .name ident _ => trim ident = ident ∧ readInt? ident = none ∧ ident ≠ "..."
  | .binary op _ _ _ => ∀ symbol, op ≠ .other symbol
  | .refOp _ op _ _ => Op.ofSymbol op.symbol = op
  | .missing => False
  | .set .. | .range .. | .complement .. | .ref .. | .map .. => True

lemma Legible.ne_missing {e : Expr} (h : e.Legible) : e ≠ .missing := by
  rintro rfl
  exact h

mutual

/-- What was put at a place stands there with all its parts. -/
lemma placed_stands (span : Span) (e : Expr) (h : ∀ x ∈ e.nodes, x ≠ .missing) :
    ∀ x ∈ (e.placed span).nodes, x.span = .ok span := by
  cases e with
  | int | name | ref => simp [placed, nodes, Expr.span]
  | set elems ellipsis place =>
    rw [nodes, List.forall_mem_cons] at h
    rw [placed, nodes, List.forall_mem_cons]
    exact ⟨rfl, allPlaced_stands span elems h.2⟩
  | range lo hi place =>
    rw [nodes, List.forall_mem_cons, List.forall_mem_append] at h
    rw [placed, nodes, List.forall_mem_cons, List.forall_mem_append]
    exact ⟨rfl, lo.placed_stands span h.2.1, hi.placed_stands span h.2.2⟩
  | binary op left right place =>
    rw [nodes, List.forall_mem_cons, List.forall_mem_append] at h
    rw [placed, nodes, List.forall_mem_cons, List.forall_mem_append]
    exact ⟨rfl, left.placed_stands span h.2.1, right.placed_stands span h.2.2⟩
  | complement operand live place =>
    rw [nodes, List.forall_mem_cons] at h
    rw [placed, nodes, List.forall_mem_cons]
    exact ⟨rfl, operand.placed_stands span h.2⟩
  | map cell image place =>
    rw [nodes, List.forall_mem_cons, List.forall_mem_cons] at h
    rw [placed, nodes, List.forall_mem_cons, List.forall_mem_cons]
    exact ⟨rfl, rfl, image.placed_stands span h.2.2⟩
  | refOp cell op arg place =>
    rw [nodes, List.forall_mem_cons, List.forall_mem_cons] at h
    rw [placed, nodes, List.forall_mem_cons, List.forall_mem_cons]
    exact ⟨rfl, rfl, arg.placed_stands span h.2.2⟩
  | missing => exact absurd rfl (h .missing (mem_nodes _))

lemma allPlaced_stands (span : Span) (es : List Expr) (h : ∀ x ∈ allNodes es, x ≠ .missing) :
    ∀ x ∈ allNodes (allPlaced span es), x.span = .ok span := by
  cases es with
  | nil => simp [allPlaced, allNodes]
  | cons e es =>
    rw [allNodes, List.forall_mem_append] at h
    rw [allPlaced, allNodes, List.forall_mem_append]
    exact ⟨e.placed_stands span h.1, allPlaced_stands span es h.2⟩

end

end Expr

/-! ### Records -/

namespace Interchange

variable {pairs : Pairs} {fields : List (String × Datum)} {name : String} {d : Datum} {span : Span}

/-- The pairs are those of a record with these fields, in any order. -/
def Pairs.Lists (pairs : Pairs) (fields : List (String × Datum)) : Prop :=
  pairs.Perm (fields.map fun f => (.text f.1, f.2)) ∧ (fields.map (·.1)).Nodup

lemma Pairs.Lists.index? (h : pairs.Lists fields) (hd : (name, d) ∈ fields) :
    ∃ i k, pairs.index? name = some i ∧ pairs[i]? = some (k, d) := by
  have hmem : (.text name, d) ∈ pairs := h.1.mem_iff.mpr (List.mem_map_of_mem hd)
  cases hi : pairs.findIdx? (isField name ·.1) with
  | none => simpa [isField] using List.findIdx?_eq_none_iff.mp hi _ hmem
  | some i =>
    obtain ⟨hlt, hname, -⟩ := List.findIdx?_eq_some_iff_getElem.mp hi
    obtain ⟨⟨other, d'⟩, hfield, he⟩ := List.mem_map.mp (h.1.mem_iff.mp (List.getElem_mem hlt))
    rw [← he] at hname
    obtain rfl : other = name := by simpa [isField] using hname
    obtain rfl : d' = d :=
      congrArg Prod.snd (List.inj_on_of_nodup_map h.2 hfield hd rfl)
    exact ⟨i, .text other, by rw [Pairs.index?, hi], by rw [List.getElem?_eq_getElem hlt, ← he]⟩

lemma Pairs.Lists.fits (h : pairs.Lists fields) : pairs.fits (fields.map (·.1)) = true := by
  have hall : ∀ name ∈ fields.map (·.1), (pairs.index? name).isSome = true := by
    intro name hname
    obtain ⟨⟨name, d⟩, hd, rfl⟩ := List.mem_map.mp hname
    obtain ⟨i, k, hi, -⟩ := h.index? hd
    rw [hi]
    rfl
  rw [Pairs.fits, List.filter_eq_self.mpr hall, h.1.length_eq, List.length_map, List.length_map]
  simp

lemma Pairs.Lists.get (h : pairs.Lists fields) (hd : (name, d) ∈ fields) : pairs.get name = d := by
  obtain ⟨i, k, hi, hpair⟩ := h.index? hd
  rw [Pairs.get, hi]
  dsimp only
  rw [hpair]
  rfl

lemma nth_of_getElem? {i : ℕ} {k : Datum} (h : pairs[i]? = some (k, d)) :
    nth span i pairs = expr span d := by
  induction pairs generalizing i with
  | nil => simp at h
  | cons p pairs ih =>
    cases i with
    | zero =>
      obtain rfl : p = (k, d) := by simpa using h
      rw [nth]
    | succ i =>
      rw [nth]
      exact ih (by simpa using h)

lemma Pairs.Lists.field (h : pairs.Lists fields) (hd : (name, d) ∈ fields) :
    field span name (.map pairs) = expr span d := by
  obtain ⟨i, k, hi, hpair⟩ := h.index? hd
  rw [Interchange.field, hi]
  exact nth_of_getElem? hpair

/-! ### Reading -/

variable {order : Pairs → Pairs} {e left right : Expr}

def ReadBack (order : Pairs → Pairs) (span : Span) (e : Expr) : Prop :=
  expr span (e.written order) = .ok (e.placed span)

/-- A text without blanks at its ends that spells no number is a name. -/
lemma expr_word {word : String} (htrim : trim word = word) (hword : readInt? word = none) :
    expr span (.text word) = .ok (.name word span) := by
  rw [expr, wordExpr, htrim, hword]
  rfl

/-- Only the ellipsis is taken for one. -/
lemma isEllipsis_written (h : e.Legible) : isEllipsis (e.written order) = false := by
  cases e with
  | int raw place =>
    obtain ⟨z, hlo, hhi, rfl⟩ := h
    rw [Expr.written, readInt?_toString ⟨hlo, hhi⟩]
    rfl
  | name ident place =>
    obtain ⟨htrim, -, hne⟩ := h
    rw [Expr.written, isEllipsis, htrim]
    simpa using hne
  | _ => rfl

lemma elements_written {es : List Expr} (h : ∀ e ∈ es, ReadBack order span e)
    (hlegible : ∀ e ∈ es, e.Legible) (ellipsis : Bool) :
    elements span (Expr.allWritten order es ++ if ellipsis then [.text "..."] else []) =
      .ok (Expr.allPlaced span es, ellipsis) := by
  induction es with
  | nil =>
    cases ellipsis with
    | false => simp [Expr.allWritten, Expr.allPlaced, elements]
    | true =>
      have hdots : isEllipsis (.text "...") = true := by cbv
      simp [Expr.allWritten, Expr.allPlaced, elements, hdots]
  | cons e es ih =>
    rw [List.forall_mem_cons] at h hlegible
    rw [Expr.allWritten, List.cons_append, elements, isEllipsis_written hlegible.1,
      if_neg (by simp), h.1, ih h.2 hlegible.2]
    rfl

lemma operands_written (hleft : ReadBack order span left) (hright : ReadBack order span right)
    (key : String) : operands span key (.list [left.written order, right.written order]) =
      .ok (left.placed span, right.placed span) := by
  rw [operands, hleft, hright]

lemma expr_keyed (key : String) (arg : Datum) :
    expr span (.keyed key arg) = operation span key arg := by
  rw [Datum.keyed, expr]

lemma binaryOp?_key {op : Op} (h : ∀ symbol, op ≠ .other symbol) : binaryOp? op.key = some op := by
  cases op with
  | other symbol => exact absurd rfl (h symbol)
  | _ => rfl

/-- The fields of a record that was written can be read, whatever their order. -/
lemma lists_record (horder : ∀ pairs, (order pairs).Perm pairs) (fields : List (String × Datum))
    (hnodup : (fields.map (·.1)).Nodup) :
    ∃ pairs : Pairs, .record order fields = Datum.map pairs ∧ pairs.Lists fields :=
  ⟨_, rfl, horder _, hnodup⟩

lemma ReadBack.map (horder : ∀ pairs, (order pairs).Perm pairs) (h : ReadBack order span e)
    (cell : Ref) (place : Span) : ReadBack order span (.map cell e place) := by
  obtain ⟨pairs, hpairs, hlists⟩ := lists_record horder [("ref", .text cell.target),
    ("to", e.written order)] (by simp)
  have hrecord : record? ["ref", "to"] (.map pairs) = some pairs := if_pos hlists.fits
  rw [ReadBack, Expr.written, expr_keyed, hpairs, operation]
  simp only [binaryOp?]
  rw [hrecord]
  dsimp only
  rw [hlists.get (d := .text cell.target) (by simp),
    hlists.field (d := e.written order) (by simp), h]
  rfl

lemma ReadBack.refOp (horder : ∀ pairs, (order pairs).Perm pairs) (h : ReadBack order span e)
    (cell : Ref) {op : Op} (hop : Op.ofSymbol op.symbol = op) (place : Span) :
    ReadBack order span (.refOp cell op e place) := by
  obtain ⟨pairs, hpairs, hlists⟩ := lists_record horder [("ref", .text cell.target),
    ("op", .text op.symbol), ("arg", e.written order)] (by simp)
  have hrecord : record? ["ref", "op", "arg"] (.map pairs) = some pairs := if_pos hlists.fits
  rw [ReadBack, Expr.written, expr_keyed, hpairs, operation]
  simp only [binaryOp?]
  rw [hrecord]
  dsimp only
  rw [hlists.get (d := .text cell.target) (by simp), hlists.get (d := .text op.symbol) (by simp),
    hlists.field (d := e.written order) (by simp), h]
  simp only [text?, hop]
  rfl

lemma readBack_of_legible (horder : ∀ pairs, (order pairs).Perm pairs) (span : Span) (e : Expr)
    (h : ∀ x ∈ e.nodes, x.Legible) : ReadBack order span e := by
  unfold ReadBack
  have hself : e.Legible := h e e.mem_nodes
  cases e with
  | int raw place =>
    obtain ⟨z, hlo, hhi, rfl⟩ := hself
    rw [Expr.written, readInt?_toString ⟨hlo, hhi⟩, expr, if_pos hhi]
    rfl
  | name ident place =>
    obtain ⟨htrim, hword, -⟩ := hself
    exact expr_word htrim hword
  | set elems ellipsis place =>
    rw [Expr.nodes, List.forall_mem_cons] at h
    have hpart : ∀ e ∈ elems, ∀ x ∈ e.nodes, x.Legible :=
      fun e he x hx => h.2 x (Expr.mem_allNodes he hx)
    rw [Expr.written, expr, elements_written
      (fun e he => readBack_of_legible horder span e (hpart e he))
      fun e he => hpart e he e e.mem_nodes]
    rfl
  | range lo hi place =>
    rw [Expr.nodes, List.forall_mem_cons, List.forall_mem_append] at h
    rw [Expr.written, expr_keyed, operation]
    simp only [binaryOp?]
    rw [operands_written (readBack_of_legible horder span lo h.2.1)
      (readBack_of_legible horder span hi h.2.2)]
    rfl
  | binary op left right place =>
    rw [Expr.nodes, List.forall_mem_cons, List.forall_mem_append] at h
    rw [Expr.written, expr_keyed, operation.eq_def, binaryOp?_key hself]
    dsimp only
    rw [operands_written (readBack_of_legible horder span left h.2.1)
      (readBack_of_legible horder span right h.2.2)]
    rfl
  | complement operand live place =>
    rw [Expr.nodes, List.forall_mem_cons] at h
    have hoperand : expr span (operand.written order) = .ok (operand.placed span) :=
      readBack_of_legible horder span operand h.2
    rw [Expr.written, expr_keyed]
    cases live with
    | false =>
      rw [if_neg (by simp), operation]
      simp only [binaryOp?]
      rw [hoperand]
      rfl
    | true =>
      rw [if_pos rfl, operation]
      simp only [binaryOp?]
      rw [hoperand]
      rfl
  | ref cell =>
    rw [Expr.written, expr_keyed, operation]
    simp only [binaryOp?]
    rfl
  | map cell image place =>
    rw [Expr.nodes, List.forall_mem_cons, List.forall_mem_cons] at h
    exact ReadBack.map horder (readBack_of_legible horder span image h.2.2) cell place
  | refOp cell op arg place =>
    rw [Expr.nodes, List.forall_mem_cons, List.forall_mem_cons] at h
    exact ReadBack.refOp horder (readBack_of_legible horder span arg h.2.2) cell hself place
  | missing => exact absurd hself id

/-- **What is written is read back.** An expression without parts left out, whose numbers are 64-bit
numbers in decimal, whose names are neither numbers nor the ellipsis and have no blanks at their
ends, and whose operators are known, is read from its written form as the same expression, each part
of it at the place where it is read. -/
theorem expr_written (horder : ∀ pairs, (order pairs).Perm pairs) (span : Span) (e : Expr)
    (h : ∀ x ∈ e.nodes, x.Legible) : expr span (e.written order) = .ok (e.placed span) ∧
      ∀ x ∈ (e.placed span).nodes, x.span = .ok span :=
  ⟨readBack_of_legible horder span e h, e.placed_stands span fun x hx => (h x hx).ne_missing⟩

/-- Every form inside another one, at places of their own. -/
def layered : Expr :=
  .map ⟨"-1", ⟨2, 4, 5⟩⟩ (.set [.int "-3" ⟨1, 1, 2⟩,
    .refOp ⟨"N", ⟨6, 1, 1⟩⟩ (.other "<<")
      (.binary .minus (.range (.int "0" .nowhere) (.name "live" .nowhere) .nowhere)
        (.complement (.ref ⟨"C", ⟨7, 1, 1⟩⟩) true .nowhere) .nowhere) .nowhere,
    .set [] true .nowhere] true .nowhere) ⟨2, 1, 9⟩

lemma legible_layered : ∀ x ∈ layered.nodes, x.Legible := by
  simp only [layered, Expr.nodes, Expr.allNodes, List.cons_append, List.nil_append, List.append_nil,
    List.forall_mem_cons]
  have hminus : ∀ symbol, Op.minus ≠ .other symbol := by
    rintro symbol ⟨⟩
  refine ⟨trivial, trivial, trivial, ⟨-3, by decide, by decide, rfl⟩, rfl, trivial, hminus, trivial,
    ⟨0, by decide, by decide, rfl⟩, ⟨?_, ?_, ?_⟩, trivial, trivial, trivial, by simp⟩
  · cbv
  · cbv
  · decide

theorem expr_written_layered : (∀ x ∈ layered.nodes, x.Legible) ∧
    expr ⟨4, 7, 7⟩ (layered.written List.reverse) = .ok (layered.placed ⟨4, 7, 7⟩) ∧
    ∀ x ∈ (layered.placed ⟨4, 7, 7⟩).nodes, x.span = .ok ⟨4, 7, 7⟩ :=
  ⟨legible_layered, expr_written List.reverse_perm ⟨4, 7, 7⟩ layered legible_layered⟩

end Interchange

end RuleTable
