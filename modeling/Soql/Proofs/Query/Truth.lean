import Soql.Proofs.Query.Formula

namespace Soql.Query

open Text Token

variable {κ : Type} {inside : Inside κ} {text : κ → String} {clear : κ → Bool} {legible : κ → Prop}

/-- A text that is one token is that token. -/
theorem whole_of_ofText {t : Token} {s : String} (h : Token.ofText s = .ok [t]) : t.Whole :=
  whole_of_scan h t (by simp)

/-- A token of another kind than a name is not the word that starts a query. -/
theorem upper_ne_select {t : Token} (ht : t.Whole) (hkind : t.kind ≠ .name) : t.upper ≠ "SELECT" := by
  intro hupper
  have hname : (word t.text).Whole := whole_of_upper (by decide) hupper
  obtain ⟨c, body, htext, hs⟩ := ht
  obtain ⟨c', body', htext', hs'⟩ := hname
  obtain ⟨rfl, rfl⟩ : c = c' ∧ body = body' := by
    have heq := congrArg String.toList (htext.symm.trans htext')
    simpa using heq
  rw [hs] at hs'
  exact hkind (Option.some.inj (congrArg Prod.fst (Option.some.inj hs')))

/-- The text of a value is one token, which is read as the value and does not start a query. -/
theorem readValue_of_text {s v : String} (h : ScalarText s v) : ∃ t : Token, t.Whole ∧ t.text = s ∧
    t.upper ≠ "SELECT" ∧ ∀ stop, Rereads readValue stop [t] v := by
  cases h with
  | @token kind v hv hkind =>
    have hwhole := whole_of_ofText hv
    have hkinds : kind = .literal ∨ kind = .date ∨ kind = .number ∨ kind = .bind := by
      simpa using hkind
    have hname : kind ≠ .name := by
      rintro rfl
      simp at hkinds
    exact ⟨_, hwhole, rfl, upper_ne_select hwhole hname, literal_rereads hkinds⟩
  | null hs =>
    have hupper : (word s).upper = "NULL" := hs
    refine ⟨word s, whole_of_upper (by decide) hs, rfl, ?_, null_rereads hs⟩
    rw [hupper]
    decide
  | name hs hvalue =>
    have hnull : (word s).upper ≠ "NULL" := by
      intro hupper
      rw [hupper] at hvalue
      revert hvalue
      decide
    refine ⟨word s, whole_of_ofText hs, rfl, ?_, name_rereads hnull hvalue⟩
    intro hupper
    rw [hupper] at hvalue
    revert hvalue
    decide

/-- The text of a value, read where its first token is no start of a query. -/
theorem scalar_spelled {s v : String} (h : ScalarText s v) :
    Spelled (·.upper ≠ "SELECT") readValue (fun _ => True) s v := by
  obtain ⟨t, ht, rfl, hfirst, hread⟩ := readValue_of_text h
  exact ⟨t, [], hfirst, ht.spells, hread _⟩

/-- Texts of values in parentheses are read as the list of the values. -/
theorem list_reads {ss vs : List String} (hne : vs ≠ []) (h : List.Forall₂ ScalarText ss vs) :
    ∃ t ts, t.upper ≠ "SELECT" ∧ Spells ("(" ++ joined ", " ss ++ ")") (opening :: t :: ts) ∧
      ∀ stop, Rereads readValueList stop (t :: ts) ("(" ++ joined ", " vs ++ ")") := by
  cases h with
  | nil => exact absurd rfl hne
  | cons hv hvs =>
    have hothers := hvs.imp fun s v hscalar =>
      show Spelled anyFirst readValue (fun _ => True) s v from
        (scalar_spelled hscalar).weaken (fun _ _ => trivial) (fun _ h => h)
    exact readValueList_of_texts (scalar_spelled hv) hothers

theorem valueReads_of_takes {op : Operator} {s v : String} (h : op.Takes s v) : ValueReads op s v := by
  cases op with
  | isIn | notIn =>
    obtain ⟨ss, vs, hne, hall, rfl, rfl⟩ := h
    exact list_reads hne hall
  | includes | excludes =>
    obtain ⟨ss, vs, hne, hall, rfl, rfl⟩ := h
    obtain ⟨t, ts, -, hspells, hread⟩ := list_reads hne hall
    exact ⟨t :: ts, hspells, hread⟩
  | _ =>
    obtain ⟨t, ht, htext, -, hread⟩ := readValue_of_text h
    exact ⟨t, ht, htext, hread⟩

theorem conditionOn_of_fieldName {name : String} (h : IsFieldName name) : ConditionOn name :=
  ⟨name, .of_name (whole_of_ofText h.whole), h.plain⟩

def readPart (inside : Inside κ) (fuel : Nat) : Connective → Reader (Filter κ)
  | .all => readOperand inside fuel
  | .any => readCombined .all (readOperand inside fuel)

def PartEnds : Connective → List Token → Prop
  | .all, _ => True
  | .any, ts => True ∧ ts.head?.any (·.isWord [Connective.all.text]) = false

def ReadAs (inside : Inside κ) (fuel : Nat) (ts : List Token) (fs : List (Filter κ)) : Binding → Prop
  | .operand => ∃ f, fs = [f] ∧ Rereads (readOperand inside fuel) (fun _ => True) ts f
  | .all => Row (·.isWord [Connective.all.text]) (readPart inside fuel .all) (PartEnds .all) ts fs
  | .any => Row (·.isWord [Connective.any.text]) (readPart inside fuel .any) (PartEnds .any) ts fs

theorem readAs_row {fuel : Nat} {ts : List Token} {fs : List (Filter κ)} (c : Connective) :
    ReadAs inside fuel ts fs c.binding ↔
      Row (·.isWord [c.text]) (readPart inside fuel c) (PartEnds c) ts fs := by
  cases c <;> rfl

/-- A part ends before the word of its connective. -/
theorem partEnds_word {w : String} {c : Connective} (hw : (word w).upper = c.text) (ts : List Token) :
    PartEnds c (word w :: ts) := by
  cases c with
  | all => trivial
  | any =>
    refine ⟨trivial, ?_⟩
    rw [List.head?_cons, Option.any_some, Token.isWord, hw]
    decide

structure Says (inside : Inside κ) (legible : κ → Prop) (b : Binding) (φ : Formula) (s : String)
    (t : Token) (ts : List Token) (fs : List (Filter κ)) : Prop where
  first : t.upper ≠ "SELECT"
  spells : Spells s (t :: ts)
  truth : ∀ v : Leaf κ → Bool, b.connective.holds (fs.map (Filter.holds v)) =
    φ.holds (fun c => v (.compare c))
  legible : ∀ f ∈ fs, f.Legible legible
  read : ∀ fuel, ts.length < fuel → ReadAs inside fuel (t :: ts) fs b

theorem holds_combined (v : Leaf κ → Bool) (c : Connective) (fs : List (Filter κ)) :
    (combined c fs).holds v = c.holds (fs.map (Filter.holds v)) := by
  match fs with
  | [] => cases c <;> rfl
  | [f] => rw [List.map_singleton, Connective.holds_single, combined]
  | f :: g :: others =>
    change (Filter.combine c (f :: g :: others)).holds v = _
    rw [Filter.holds, Filter.holdsAll_eq]

theorem legible_combined {c : Connective} {fs : List (Filter κ)} (hne : fs ≠ [])
    (h : ∀ f ∈ fs, f.Legible legible) : (combined c fs).Legible legible := by
  match fs, hne with
  | [f], _ => exact h f (by simp)
  | f :: g :: others, _ => exact .combine h

/-- An operand is read as a single filter. -/
theorem Says.operand {φ : Formula} {s : String} {t : Token} {ts : List Token} {f : Filter κ}
    (first : t.upper ≠ "SELECT") (spells : Spells s (t :: ts))
    (truth : ∀ v : Leaf κ → Bool, f.holds v = φ.holds fun c => v (.compare c))
    (hlegible : f.Legible legible)
    (read : ∀ fuel, ts.length < fuel → Rereads (readOperand inside fuel) (fun _ => True) (t :: ts) f) :
    Says inside legible .operand φ s t ts [f] where
  first := first
  spells := spells
  truth := fun v => by rw [List.map_singleton, Connective.holds_single, truth v]
  legible := by simpa using hlegible
  read := fun fuel hfuel => ⟨f, rfl, read fuel hfuel⟩

theorem Says.single {φ : Formula} {s : String} {t : Token} {ts : List Token} {fs : List (Filter κ)}
    (h : Says inside legible .operand φ s t ts fs) : ∃ f : Filter κ, fs = [f] ∧
      (∀ v : Leaf κ → Bool, f.holds v = φ.holds fun c => v (.compare c)) ∧ f.Legible legible ∧
      ∀ fuel, ts.length < fuel → Rereads (readOperand inside fuel) (fun _ => True) (t :: ts) f := by
  obtain ⟨f, rfl, -⟩ := h.read (ts.length + 1) (by omega)
  refine ⟨f, rfl, ?_, h.legible f (by simp), ?_⟩
  · intro v
    have htruth := h.truth v
    rwa [List.map_singleton, Connective.holds_single] at htruth
  · intro fuel hfuel
    obtain ⟨g, hg, hread⟩ := h.read fuel hfuel
    obtain rfl := List.singleton_inj.mp hg
    exact hread

section Ways

variable {φ ψ : Formula} {s s' w : String} {t u : Token} {ts us : List Token}
  {fs gs : List (Filter κ)}

theorem says_test {c : Comparison} (hc : IsFieldName c.field) (h : c.Written s) :
    ∃ t ts fs, Says inside legible .operand (.test c) s t ts fs := by
  obtain ⟨ho, htakes⟩ := h
  have hfield := conditionOn_of_fieldName hc
  have hvalue := valueReads_of_takes htakes
  obtain ⟨t, ts, ht, hspells, hread⟩ := operand_of_leaf (compare_spelled hfield ho hvalue)
  have hlegible : (Leaf.compare c : Leaf κ).Legible legible := ⟨hfield, valueFits_of_reads hvalue⟩
  exact ⟨t, ts, _, Says.operand ht hspells (fun _ => rfl) (.leaf hlegible) hread⟩

theorem says_not (hw : (word w).upper = "NOT") (h : Says inside legible .operand φ s t ts fs) :
    ∃ t ts fs, Says inside legible .operand (.not φ) (w ++ " " ++ s) t ts fs := by
  obtain ⟨f, rfl, htruth, hlegible, hread⟩ := h.single
  have hword : Spells w [word w] := (whole_of_upper (by decide) hw).spells
  refine ⟨word w, t :: ts, [.negation f],
    Says.operand ?_ (hword.space h.spells) ?_ (.negation hlegible) ?_⟩
  · rw [hw]
    decide
  · intro v
    rw [Filter.holds, htruth v, Formula.holds]
  · intro fuel hfuel
    obtain ⟨fuel, rfl⟩ : ∃ n, fuel = n + 1 := ⟨fuel - 1, by omega⟩
    exact readOperand_negation hw (hread fuel (by simp at hfuel; omega))

/-- Alternatives are read as one filter where no connective goes on with them. -/
theorem Says.alternatives (h : Says inside legible .any φ s t ts fs) {fuel : Nat}
    (hfuel : ts.length < fuel) :
    Rereads (readAlternatives (readOperand inside fuel)) NoConnective (t :: ts) (combined .any fs) := by
  have hrow : Row _ _ _ _ _ := h.read fuel hfuel
  intro rest hrest
  exact readCombined_rereads .any hrow rest ⟨⟨trivial, hrest.1⟩, hrest.2⟩

theorem Says.ne_nil {b : Binding} (h : Says inside legible b φ s t ts fs) : fs ≠ [] := by
  have hread := h.read (ts.length + 1) (by omega)
  cases b with
  | operand =>
    obtain ⟨f, rfl, -⟩ := hread
    simp
  | all => exact Row.ne_nil hread
  | any => exact Row.ne_nil hread

theorem says_parentheses (h : Says inside legible .any φ s t ts fs) :
    ∃ t ts fs, Says inside legible .operand φ ("(" ++ s ++ ")") t ts fs := by
  refine ⟨opening, t :: ts ++ [closing], [combined .any fs],
    Says.operand (by simp) (spells_parentheses h.spells) ?_ (legible_combined h.ne_nil h.legible) ?_⟩
  · intro v
    rw [holds_combined]
    exact h.truth v
  · intro fuel hfuel
    obtain ⟨fuel, rfl⟩ : ∃ n, fuel = n + 1 := ⟨fuel - 1, by omega⟩
    exact readOperand_parentheses h.first (h.alternatives (by simp at hfuel; omega))

theorem says_conjunct (h : Says inside legible .operand φ s t ts fs) :
    ∃ t ts fs, Says inside legible .all φ s t ts fs := by
  obtain ⟨f, rfl, htruth, hlegible, hread⟩ := h.single
  exact ⟨t, ts, [f], h.first, h.spells, h.truth, h.legible,
    fun fuel hfuel => .single (hread fuel hfuel)⟩

theorem says_alternative (h : Says inside legible .all φ s t ts fs) :
    ∃ t ts fs, Says inside legible .any φ s t ts fs := by
  refine ⟨t, ts, [combined .all fs], h.first, h.spells, ?_, ?_, ?_⟩
  · intro v
    rw [List.map_singleton, Connective.holds_single, holds_combined]
    exact h.truth v
  · simpa using legible_combined h.ne_nil h.legible
  · intro fuel hfuel
    have hrow : Row _ _ _ _ _ := h.read fuel hfuel
    exact .single (readCombined_rereads .all hrow)

/-- Two texts with a word between them. -/
theorem spells_between (hw : (word w).Whole) (hs : Spells s (t :: ts)) (hs' : Spells s' (u :: us)) :
    Spells (s ++ (" " ++ w ++ " ") ++ s') (t :: (ts ++ word w :: u :: us)) := by
  have hspells := (hs.space hw.spells).space hs'
  simpa [String.append_assoc] using hspells

/-- Two written combinations with the word of a connective between them. -/
theorem says_join {c : Connective} (hw : (word w).upper = c.text)
    (hf : Says inside legible c.binding φ s t ts fs)
    (hg : Says inside legible c.binding ψ s' u us gs) : ∃ t ts fs,
      Says inside legible c.binding (c.join φ ψ) (s ++ (" " ++ w ++ " ") ++ s') t ts fs := by
  have hword : (word w).Whole := whole_of_upper (reserved_connective c) hw
  refine ⟨t, ts ++ word w :: u :: us, fs ++ gs, hf.first, spells_between hword hf.spells hg.spells,
    ?_, List.forall_mem_append.mpr ⟨hf.legible, hg.legible⟩, ?_⟩
  · intro v
    have hleft := hf.truth v
    have hright := hg.truth v
    rw [c.binding_connective] at hleft hright ⊢
    rw [List.map_append, c.holds_append, hleft, hright, c.join_holds]
  · intro fuel hfuel
    simp only [List.length_append, List.length_cons] at hfuel
    have hleft := (readAs_row c).mp (hf.read fuel (by omega))
    have hright := (readAs_row c).mp (hg.read fuel (by omega))
    have hsep : (word w).isWord [c.text] = true := by simp [Token.isWord, hw]
    exact (readAs_row c).mpr (hleft.append hsep (partEnds_word hw) hright)

end Ways

/-- By induction on the way in which the combination is written. -/
theorem written_says {b : Binding} {φ : Formula} {s : String} (h : Written b φ s)
    (hc : ∀ c ∈ φ.comparisons, c.Ordinary) :
    ∃ t ts fs, Says inside legible b φ s t ts fs := by
  induction h with
  | test h => exact says_test (hc _ (by simp [Formula.comparisons])).field h
  | not hw _ ih =>
    obtain ⟨t, ts, fs, hf⟩ := ih hc
    exact says_not hw hf
  | parentheses _ ih =>
    obtain ⟨t, ts, fs, hf⟩ := ih hc
    exact says_parentheses hf
  | conjunct _ ih =>
    obtain ⟨t, ts, fs, hf⟩ := ih hc
    exact says_conjunct hf
  | alternative _ ih =>
    obtain ⟨t, ts, fs, hf⟩ := ih hc
    exact says_alternative hf
  | both hw _ _ ihf ihg =>
    obtain ⟨hcf, hcg⟩ := List.forall_mem_append.mp hc
    obtain ⟨t, ts, fs, hf⟩ := ihf hcf
    obtain ⟨u, us, gs, hg⟩ := ihg hcg
    exact says_join (c := .all) hw hf hg
  | either hw _ _ ihf ihg =>
    obtain ⟨hcf, hcg⟩ := List.forall_mem_append.mp hc
    obtain ⟨t, ts, fs, hf⟩ := ihf hcf
    obtain ⟨u, us, gs, hg⟩ := ihg hcg
    exact says_join (c := .any) hw hf hg

variable (inside legible) in
/-- A written combination is read as one filter where a filter may stand. -/
theorem written_spelled {φ : Formula} {s : String} (h : Written .any φ s)
    (hc : ∀ c ∈ φ.comparisons, c.Ordinary) :
    ∃ f : Filter κ, Spelled anyFirst (readFilter inside) NoConnective s f ∧
      (∀ v : Leaf κ → Bool, f.holds v = φ.holds fun c => v (.compare c)) ∧ f.Legible legible := by
  obtain ⟨t, ts, fs, hsays⟩ : ∃ t ts fs, Says inside legible .any φ s t ts fs := written_says h hc
  refine ⟨combined .any fs, ⟨t, ts, trivial, hsays.spells, ?_⟩, ?_,
    legible_combined hsays.ne_nil hsays.legible⟩
  · intro rest hrest
    unfold readFilter
    simp only [run_bind_ok, run_get_ok]
    refine ⟨_, _, ⟨rfl, rfl⟩, hsays.alternatives ?_ rest hrest⟩
    simp only [List.cons_append, List.length_cons, List.length_append]
    omega
  · intro v
    rw [holds_combined]
    exact hsays.truth v

/-- A query whose condition is any written form of a combination of comparisons is read with a filter
that says the same, and so is the text that this query is written as. -/
theorem parse_written {text : String} {q : Query} (hq : parse text = .ok q)
    (hclear : q.isClear = true) {φ : Formula} (hc : ∀ c ∈ φ.comparisons, c.Ordinary) :
    Written .any φ (φ.text .any) ∧ ∀ s, Written .any φ s →
      ∃ f, parse (q.renderWhere s) = .ok { q with filter := some f } ∧
        parse (Query.render { q with filter := some f }) = .ok { q with filter := some f } ∧
        ∀ v : Leaf InnerQuery → Bool, f.holds v = φ.holds fun c => v (.compare c) := by
  refine ⟨Formula.written_text hc .any, ?_⟩
  intro s hs
  obtain ⟨f, hspelled, htruth, hlegible⟩ :=
    written_spelled innerInside InnerLegible hs hc
  have hwhole := (parse_sound hq).2 hclear
  refine ⟨f, parse_of_clauses { hwhole with filter := nofun } (where_reads hspelled), ?_, htruth⟩
  apply parse_of_legible
  refine { hwhole with filter := ?_ }
  rintro _ ⟨⟩
  exact hlegible

theorem tokens_nested :
    (Token.ofText "A" = .ok [word "A"] ∧ ["NOT", "EXISTS", "SELECT"].contains (word "A").upper = false) ∧
    (Token.ofText "B.C" = .ok [word "B.C"] ∧
      ["NOT", "EXISTS", "SELECT"].contains (word "B.C").upper = false) ∧
    Token.ofText "1" = .ok [⟨.number, "1"⟩] ∧ Token.ofText "'x'" = .ok [⟨.literal, "'x'"⟩] := by
  decide +kernel

theorem ordinary_number : Comparison.Ordinary ⟨"A", .equal, "1"⟩ where
  field := ⟨tokens_nested.1.1, tokens_nested.1.2⟩
  value := .token tokens_nested.2.2.1 (by decide)

theorem ordinary_list : Comparison.Ordinary ⟨"B.C", .notIn, "('x', null)"⟩ where
  field := ⟨tokens_nested.2.1.1, tokens_nested.2.1.2⟩
  value := ⟨["'x'", "null"], ["'x'", "null"], by decide,
    .cons (.token tokens_nested.2.2.2 (by decide)) (.cons (.null (upper_word (by decide))) .nil),
    by decide, by decide⟩

theorem parse_written_nested : ∃ q f, parse "SELECT Id FROM A ORDER BY B LIMIT 5" = .ok q ∧
    q.isClear = true ∧
    parse (Query.renderWhere q
      "(not ((A = 1) or B.C Not In ('x', NULL))) AND B.C NOT IN ('x', null) OR ((A = 1))") =
        .ok { q with filter := some f } ∧
    ∀ v : Leaf InnerQuery → Bool, f.holds v =
      (!(v (.compare ⟨"A", .equal, "1"⟩) || v (.compare ⟨"B.C", .notIn, "('x', null)"⟩)) &&
        v (.compare ⟨"B.C", .notIn, "('x', null)"⟩) || v (.compare ⟨"A", .equal, "1"⟩)) := by
  obtain ⟨q, hq, hclear⟩ := exists_ok_of_any (r := parse "SELECT Id FROM A ORDER BY B LIMIT 5")
    (p := Query.isClear) (by decide +kernel)
  -- The written form, from the inside outwards.
  have ha := Written.test ordinary_number.written
  have hb := Written.test ordinary_list.written
  have hb' : Written .operand (.test ⟨"B.C", .notIn, "('x', null)"⟩) "B.C Not In ('x', NULL)" := by
    refine .test (.mk (o := "Not In") (s := "('x', NULL)") ?_ ?_)
    · exact upper_word (by decide)
    · exact ⟨["'x'", "NULL"], ["'x'", "null"], by decide,
        .cons (.token tokens_nested.2.2.2 (by decide))
          (.cons (.null (upper_word (by decide))) .nil), by decide, by decide⟩
  have hboxed := Written.parentheses (ha.of_operand .any)
  have hor := Written.either (w := "or") (upper_word (by decide)) (hboxed.of_operand .any)
    (hb'.of_operand .any)
  have hnot := Written.not (w := "not") (upper_word (by decide)) (.parentheses hor)
  have hand := Written.both (w := "AND") (upper_word (by decide))
    (.conjunct (.parentheses (hnot.of_operand .any))) (hb.of_operand .all)
  have hs := Written.either (w := "OR") (upper_word (by decide)) (.alternative hand)
    (.of_operand (.parentheses (hboxed.of_operand .any)) .any)
  have hc : ∀ c ∈ Formula.comparisons (.either (.both (.not (.either (.test ⟨"A", .equal, "1"⟩)
      (.test ⟨"B.C", .notIn, "('x', null)"⟩))) (.test ⟨"B.C", .notIn, "('x', null)"⟩))
      (.test ⟨"A", .equal, "1"⟩)), c.Ordinary := by
    intro c hmem
    have hcases : c = ⟨"A", .equal, "1"⟩ ∨ c = ⟨"B.C", .notIn, "('x', null)"⟩ := by
      simp only [Formula.comparisons, List.mem_append, List.mem_singleton] at hmem
      tauto
    rcases hcases with rfl | rfl
    · exact ordinary_number
    · exact ordinary_list
  obtain ⟨f, hparse, -, htruth⟩ := (parse_written hq hclear hc).2 _ hs
  exact ⟨q, f, hq, hclear, hparse, htruth⟩

end Soql.Query
