import Soql.Proofs.Query.Neat
import Soql.Proofs.Query.RoundTrip

namespace Soql

open Text Token Query

theorem not_contains_of_isProper {name : String} (h : isProper name = true) {words : List String}
    (hwords : ∀ w ∈ words, w ∈ reservedWords) : words.contains (word name).upper = false := by
  rw [← Bool.not_eq_true, List.contains_iff_mem]
  exact fun hmem => upper_of_isProper h (hwords _ hmem)

theorem selectable_of_isProper {name : String} (h : isProper name = true) : Selectable name := by
  refine ⟨whole_of_isPath (isPath_of_isProper h), ?_, ?_⟩
  · exact not_contains_of_isProper h fun w hw => List.mem_append_left _ hw
  · have hupper := upper_of_isProper h
    intro htypeOf
    rw [htypeOf] at hupper
    exact hupper (by decide)

theorem Query.Orderly.conditionOn {e : String} (h : Orderly e) : ConditionOn e := by
  obtain ⟨name, hname, he⟩ := h.expression
  exact ⟨name, he, not_contains_of_isProper hname (by simp [reservedWords])⟩

theorem groups_of_orderly {es : List String} (h : ∀ e ∈ es, Orderly e) : Groups es := by
  have hexpression (e : String) (he : e ∈ es) : ∃ name, Expression name e := by
    obtain ⟨name, -, hname⟩ := (h e he).expression
    exact ⟨name, hname⟩
  refine ⟨hexpression, ?_⟩
  intro e he
  obtain ⟨name, hproper, hname⟩ := (h e (List.mem_of_mem_head? he)).expression
  exact ⟨name, hname, not_contains_of_isProper hproper (by simp [reservedWords])⟩

def SelectItem.Sturdy {κ : Type} (child : κ → Prop) : SelectItem κ → Prop
  | .field path _ => isProper path = true
  | .call name args alias? => isProper name = true ∧ PlainArguments args ∧
    (∀ first ∈ args.head?, Orderly first) ∧ ∀ a ∈ alias?, BareAlias a.name
  | .child q => child q
  | .typeOf _ _ _ => True

structure QueryOf.Sturdy {κ : Type} (inner child : κ → Prop) (q : QueryOf κ) : Prop where
  legible : q.Legible inner False
  items : ∀ item ∈ q.items, item.Sturdy child
  leaves : ∀ l ∈ q.leaves, Orderly l.field
  groupBy : ∀ e ∈ q.groupBy, Orderly e
  orderBy : ∀ k ∈ q.orderBy, Orderly k.field

/-- An inner query that is read again, in which the fields of each clause can be exchanged. -/
def InnerQuery.Sturdy (q : InnerQuery) : Prop :=
  QueryOf.Sturdy (fun q : Empty => q.elim) (fun q : Empty => q.elim) q

structure Query.Sturdy (q : Query) : Prop where
  clauses : QueryOf.Sturdy InnerLegible InnerQuery.Sturdy q
  values : ∀ c ∈ q.comparisons, isTidyValue c.value = true

theorem Query.Sturdy.rereads {q : Query} (h : q.Sturdy) : parse q.render = .ok q :=
  parse_of_legible (h.clauses.legible.mono False.elim)

def isBareAlias (name : String) : Bool :=
  !clauseWords.contains (word name).upper && !name.toList.contains '.' && (word name).upper != "AS"

def closesGroups (text : String) : Bool :=
  (Token.ofText text).toOption.any fun ts => Query.walk endsClause 0 ts == some 0

/-- The names of a select item are no reserved words, and its arguments are made of plain tokens. -/
def SelectItem.isTidy {κ : Type} (child : κ → Bool) : SelectItem κ → Bool
  | .field path _ => isProper path
  | .call name args alias? => isProper name && args.all isPlainText && args.head?.all isOrderly &&
    alias?.all (isBareAlias ·.name)
  | .child q => child q
  | .typeOf _ _ _ => true

def QueryOf.isTidy {κ : Type} (child : κ → Bool) (q : QueryOf κ) : Bool :=
  q.items.all (·.isTidy child) && q.leaves.all (isOrderly ·.field) && q.groupBy.all isOrderly &&
    q.having.all closesGroups && q.orderBy.all (isOrderly ·.field)

def InnerQuery.isTidy (q : InnerQuery) : Bool :=
  QueryOf.isTidy Empty.elim q

def Query.isTidy (q : Query) : Bool :=
  q.isClear && QueryOf.isTidy InnerQuery.isTidy q && q.comparisons.all (isTidyValue ·.value)

section

variable {κ : Type} {inner child : κ → Prop} {tidy : κ → Bool}

theorem SelectItem.Legible.sturdy (hchild : ∀ q, inner q → tidy q = true → child q)
    {item : SelectItem κ} (h : item.Legible inner) (htidy : item.isTidy tidy = true) : item.Sturdy child := by
  cases item with
  | field path alias? => exact htidy
  | call name args alias? =>
    obtain ⟨-, hargs, -, -⟩ := h
    simp only [SelectItem.isTidy, Bool.and_eq_true, Option.all_eq_true] at htidy
    obtain ⟨⟨⟨hname, hplain⟩, hfirst⟩, halias⟩ := htidy
    refine ⟨hname, plainArguments_of_all hargs hplain, fun e he => orderly_of_isOrderly (hfirst e he), ?_⟩
    intro a ha
    have hbare := halias a ha
    simp only [isBareAlias, Bool.and_eq_true, Bool.not_eq_true', bne_iff_ne] at hbare
    exact ⟨hbare.1.1, hbare.1.2, hbare.2⟩
  | child q => exact hchild q h htidy
  | typeOf relationship branches otherwise => trivial

theorem QueryOf.Legible.sturdy (hchild : ∀ q, inner q → tidy q = true → child q) {atEnd : Prop}
    {q : QueryOf κ} (h : q.Legible inner atEnd) (htidy : q.isTidy tidy = true) : q.Sturdy inner child := by
  simp only [QueryOf.isTidy, Bool.and_eq_true, List.all_eq_true, Option.all_eq_true] at htidy
  obtain ⟨⟨⟨⟨hitems, hleaves⟩, hgroups⟩, hhaving⟩, horder⟩ := htidy
  refine ⟨{ h with having := ?_ }, ?_, fun l hl => orderly_of_isOrderly (hleaves l hl),
    fun e he => orderly_of_isOrderly (hgroups e he), fun k hk => orderly_of_isOrderly (horder k hk)⟩
  · intro text htext
    obtain ⟨depth, ⟨t, ts, hwhole, rfl, hwalk⟩, -⟩ := h.having text htext
    have hcloses := hhaving _ htext
    rw [closesGroups, ofText_rowText hwhole] at hcloses
    have hzero : (Query.walk endsClause 0 (t :: ts) == some 0) = true := hcloses
    exact ⟨0, ⟨t, ts, hwhole, rfl, beq_iff_eq.mp hzero⟩, .inl rfl⟩
  · intro item hitem
    exact (h.items.2 item hitem).sturdy hchild (hitems item hitem)

end

theorem InnerQuery.sturdy_of_isTidy {q : InnerQuery} (h : InnerLegible q) (htidy : q.isTidy = true) :
    q.Sturdy :=
  QueryOf.Legible.sturdy (fun q : Empty => q.elim) h htidy

theorem Query.sturdy_of_isTidy {text : String} {q : Query} (h : parse text = .ok q)
    (htidy : q.isTidy = true) : q.Sturdy := by
  simp only [Query.isTidy, Bool.and_eq_true, List.all_eq_true] at htidy
  obtain ⟨⟨hclear, hclauses⟩, hvalues⟩ := htidy
  have hlegible := (parse_sound h).2 hclear
  exact ⟨hlegible.sturdy (fun _ hq ht => InnerQuery.sturdy_of_isTidy hq ht) hclauses, hvalues⟩

end Soql
