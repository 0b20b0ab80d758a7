import Soql.Proofs.Query.RoundTrip

/-!
Boolean combinations of comparisons, what they say, and the ways to write them. A negation binds
tighter than a conjunction, and a conjunction tighter than a disjunction; parentheses stand where the
order of binding needs them, and may stand around anything.
-/

namespace Soql

open Text Token Query

inductive Formula where
  | test (comparison : Comparison)
  | both (left right : Formula)
  | either (left right : Formula)
  | not (operand : Formula)

namespace Formula

def holds (v : Comparison → Bool) : Formula → Bool
  | test c => v c
  | both f g => f.holds v && g.holds v
  | either f g => f.holds v || g.holds v
  | not f => !f.holds v

def comparisons : Formula → List Comparison
  | test c => [c]
  | both f g => f.comparisons ++ g.comparisons
  | either f g => f.comparisons ++ g.comparisons
  | not f => f.comparisons

end Formula

def Connective.holds : Connective → List Bool → Bool
  | all, values => values.all id
  | any, values => values.any id

/-- A single operand says what it says alone. -/
theorem Connective.holds_single (c : Connective) (value : Bool) : c.holds [value] = value := by
  cases c <;> simp [Connective.holds]

theorem Connective.holds_append (c : Connective) (xs ys : List Bool) :
    c.holds (xs ++ ys) = c.holds [c.holds xs, c.holds ys] := by
  cases c <;> simp [Connective.holds, List.all_append, List.any_append]

def Connective.join : Connective → Formula → Formula → Formula
  | all => .both
  | any => .either

theorem Connective.join_holds (c : Connective) (v : Comparison → Bool) (f g : Formula) :
    (c.join f g).holds v = c.holds [f.holds v, g.holds v] := by
  cases c <;> simp [join, Connective.holds, Formula.holds]

namespace Filter

variable {κ : Type}

mutual

def holds (v : Leaf κ → Bool) : Filter κ → Bool
  | leaf l => v l
  | combine c operands => c.holds (holdsAll v operands)
  | negation operand => !operand.holds v

def holdsAll (v : Leaf κ → Bool) : List (Filter κ) → List Bool
  | [] => []
  | f :: rest => f.holds v :: holdsAll v rest

end

theorem holdsAll_eq (v : Leaf κ → Bool) (fs : List (Filter κ)) :
    holdsAll v fs = fs.map (holds v) := by
  induction fs with
  | nil => rfl
  | cons f fs ih => rw [holdsAll, List.map_cons, ih]

end Filter

/-- A text and the value that it is: a literal, a date, a number or a variable as it stands, or one of
the names that are values, in any letter case. -/
inductive ScalarText : String → String → Prop
  | token {kind : TokenKind} {v : String} (hv : Token.ofText v = .ok [⟨kind, v⟩])
    (hkind : kind ∈ [.literal, .date, .number, .bind]) : ScalarText v v
  | null {s : String} (hs : s.map Char.toUpper = "NULL") : ScalarText s "null"
  | name {s : String} (hs : Token.ofText s = .ok [word s])
    (hvalue : (["TRUE", "FALSE"].contains (word s).upper || isDateName (word s).upper) = true) :
    ScalarText s (word s).upper

/-- A text after an operator and the value that it is: a single one, or after an operator for lists
values in parentheses. -/
def Operator.Takes : Operator → String → String → Prop
  | .isIn, s, v | .notIn, s, v | .includes, s, v | .excludes, s, v =>
    ∃ ss vs, vs ≠ [] ∧ List.Forall₂ ScalarText ss vs ∧ s = "(" ++ joined ", " ss ++ ")" ∧
      v = "(" ++ joined ", " vs ++ ")"
  | _, s, v => ScalarText s v

/-- The name of a field, perhaps at the end of a path; it is none of the words with which something
else begins where a condition may stand. -/
structure IsFieldName (name : String) : Prop where
  whole : Token.ofText name = .ok [word name]
  plain : ["NOT", "EXISTS", "SELECT"].contains (word name).upper = false

namespace Comparison

/-- A comparison of a field with a value that its operator takes. -/
structure Ordinary (c : Comparison) : Prop where
  field : IsFieldName c.field
  value : c.operator.Takes c.value c.value

def text (c : Comparison) : String :=
  c.field ++ " " ++ (c.operator.text ++ " " ++ c.value)

/-- The ways to write a comparison. -/
inductive Written (c : Comparison) : String → Prop
  | mk {o s : String} (ho : o.map Char.toUpper = c.operator.text) (hs : c.operator.Takes s c.value) :
    Written c (c.field ++ " " ++ (o ++ " " ++ s))

theorem Ordinary.written {c : Comparison} (h : c.Ordinary) : c.Written c.text :=
  .mk (operator_capitals c.operator) h.value

end Comparison

def Query.renderWhere (q : Query) (condition : String) : String :=
  renderClauses InnerQuery.render q ["WHERE" ++ " " ++ condition]

/-- How tightly a text binds: as an operand of anything, as a conjunction, or as a disjunction. -/
inductive Binding where
  | operand | all | any

/-- The connective between the parts of a text; an operand has a single part. -/
def Binding.connective : Binding → Connective
  | operand | all => .all
  | any => .any

def Connective.binding : Connective → Binding
  | all => .all
  | any => .any

theorem Connective.binding_connective (c : Connective) : c.binding.connective = c := by
  cases c <;> rfl

/-- The ways to write a combination, with the words between its parts in any letter case. -/
inductive Written : Binding → Formula → String → Prop
  | test {c : Comparison} {s : String} (h : c.Written s) : Written .operand (.test c) s
  | not {w s : String} {f : Formula} (hw : w.map Char.toUpper = "NOT") (h : Written .operand f s) :
    Written .operand (.not f) (w ++ " " ++ s)
  | parentheses {s : String} {f : Formula} (h : Written .any f s) :
    Written .operand f ("(" ++ s ++ ")")
  | conjunct {s : String} {f : Formula} (h : Written .operand f s) : Written .all f s
  | both {w s t : String} {f g : Formula} (hw : w.map Char.toUpper = "AND") (hf : Written .all f s)
    (hg : Written .all g t) : Written .all (.both f g) (s ++ (" " ++ w ++ " ") ++ t)
  | alternative {s : String} {f : Formula} (h : Written .all f s) : Written .any f s
  | either {w s t : String} {f g : Formula} (hw : w.map Char.toUpper = "OR") (hf : Written .any f s)
    (hg : Written .any g t) : Written .any (.either f g) (s ++ (" " ++ w ++ " ") ++ t)

namespace Formula

/-- The text of a combination with no parentheses but those that the order of binding needs. -/
def text : Formula → Binding → String
  | test c, _ => c.text
  | not f, _ => "NOT " ++ f.text .operand
  | both f g, .operand => "(" ++ (f.text .all ++ " AND " ++ g.text .all) ++ ")"
  | both f g, _ => f.text .all ++ " AND " ++ g.text .all
  | either f g, .any => f.text .any ++ " OR " ++ g.text .any
  | either f g, _ => "(" ++ (f.text .any ++ " OR " ++ g.text .any) ++ ")"

end Formula

namespace Written

theorem any_of_operand {f : Formula} {s : String} (h : Written .operand f s) : Written .any f s :=
  .alternative (.conjunct h)

/-- An operand may stand anywhere. -/
theorem of_operand {f : Formula} {s : String} (h : Written .operand f s) (b : Binding) :
    Written b f s := by
  cases b with
  | operand => exact h
  | all => exact .conjunct h
  | any => exact any_of_operand h

end Written

/-- By induction on the combination, for each place where it may stand. -/
theorem Formula.written_text {f : Formula} (h : ∀ c ∈ f.comparisons, c.Ordinary) (b : Binding) :
    Written b f (f.text b) := by
  induction f generalizing b with
  | test c =>
    have hc := h c (by simp [comparisons])
    exact (Written.test hc.written).of_operand b
  | not f ih =>
    have hnot : Written .operand (.not f) ("NOT" ++ " " ++ f.text .operand) :=
      .not (upper_reserved (by decide)) (ih h .operand)
    exact hnot.of_operand b
  | both f g ihf ihg =>
    obtain ⟨hf, hg⟩ := List.forall_mem_append.mp h
    have hboth : Written .all (.both f g) (f.text .all ++ (" " ++ "AND" ++ " ") ++ g.text .all) :=
      .both (upper_reserved (by decide)) (ihf hf .all) (ihg hg .all)
    cases b with
    | operand => exact .parentheses (.alternative hboth)
    | all => exact hboth
    | any => exact .alternative hboth
  | either f g ihf ihg =>
    obtain ⟨hf, hg⟩ := List.forall_mem_append.mp h
    have heither : Written .any (.either f g) (f.text .any ++ (" " ++ "OR" ++ " ") ++ g.text .any) :=
      .either (upper_reserved (by decide)) (ihf hf .any) (ihg hg .any)
    cases b with
    | operand => exact .parentheses heither
    | all => exact .conjunct (.parentheses heither)
    | any => exact heither

end Soql
