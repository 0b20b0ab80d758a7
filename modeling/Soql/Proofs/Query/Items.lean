import Soql.Proofs.Query.Legible

namespace Soql.Query

open Text Token

variable {κ : Type}

/-- Where a select item ends: at a comma, or at the word of the next clause. -/
def EndsItem (ts : List Token) : Prop :=
  ∃ rest, ts = comma :: rest ∨ ts = word "FROM" :: rest

theorem EndsItem.notOpening {ts : List Token} (h : EndsItem ts) : NotOpening ts := by
  obtain ⟨rest, rfl | rfl⟩ := h <;> rfl

theorem readAlias_sound {afterCall : Bool} {ts rest : List Token} {a : Option Alias}
    (h : (readAlias afterCall).run ts = .ok (a, rest)) (hts : AllWhole ts) :
    AllWhole rest ∧ Named afterCall a := by
  unfold readAlias at h
  simp only [run_bind_ok, run_atWord_ok] at h
  obtain ⟨isAs, _, ⟨hisAs, rfl⟩, h⟩ := h
  split at h
  · simp only [run_bind_ok, run_take_ok, run_takeName_ok, run_pure_ok] at h
    obtain ⟨t, _, rfl, name, _, rfl, rfl, rfl⟩ := h
    refine ⟨hts.tail.tail, ?_⟩
    rintro a ⟨⟩
    exact ⟨hts.tail.head, Or.inl rfl⟩
  · rename_i hnotAs
    simp only [run_bind_ok, run_peek_ok] at h
    obtain ⟨next, _, ⟨rfl, rfl⟩, h⟩ := h
    -- Without the keyword nothing may be named, or a name stands bare.
    have hnone : AllWhole ts ∧ Named afterCall none := ⟨hts, fun a ha => by cases ha⟩
    split at h
    · rename_i t hhead
      split at h
      · rename_i hbare
        split at h
        · -- A bare name follows a call.
          rename_i hcall
          simp only [run_bind_ok, run_take_ok, run_pure_ok] at h
          obtain ⟨u, _, rfl, rfl, rfl⟩ := h
          obtain rfl : u = t := by simpa using hhead
          simp only [Bool.and_eq_true, beq_iff_eq, Bool.not_eq_true'] at hbare
          obtain ⟨⟨hkind, hclause⟩, hpoint⟩ := hbare
          have hu : u = word u.text := by
            obtain ⟨kind, text⟩ := u
            cases hkind
            rfl
          have hwhole := hts.head
          rw [hu] at hwhole
          refine ⟨hts.tail, ?_⟩
          rintro a ⟨⟩
          refine ⟨hwhole, Or.inr ⟨hcall, hclause, hpoint, ?_⟩⟩
          intro has
          apply hnotAs
          rw [← hisAs]
          simp only [List.head?_cons, Option.any_some, Token.isWord]
          rw [show u.upper = "AS" from has]
          decide
        · exact absurd h run_throw_ok
      · obtain ⟨rfl, rfl⟩ := run_pure_ok.mp h
        exact hnone
    · obtain ⟨rfl, rfl⟩ := run_pure_ok.mp h
      exact hnone

def aliasTokens : Option Alias → List Token
  | none => []
  | some a => if a.withAs then [word "AS", word a.name] else [word a.name]

theorem readAlias_rereads {afterCall : Bool} {a : Option Alias} (ha : Named afterCall a) :
    Rereads (readAlias afterCall) EndsItem (aliasTokens a) a := by
  intro rest hrest
  unfold readAlias
  simp only [run_bind_ok, run_atWord_ok]
  cases a with
  | none =>
    obtain ⟨rest, rfl | rfl⟩ := hrest
    · refine ⟨false, _, ⟨?_, rfl⟩, ?_⟩
      · simp [aliasTokens, Token.isWord]
      · simp only [Bool.false_eq_true, if_false, run_bind_ok, run_peek_ok]
        exact ⟨_, _, ⟨rfl, rfl⟩, rfl⟩
    · refine ⟨false, _, ⟨?_, rfl⟩, ?_⟩
      · simp [aliasTokens, isWord_reserved (w := "FROM") (by decide)]
      · simp only [Bool.false_eq_true, if_false, run_bind_ok, run_peek_ok]
        refine ⟨_, _, ⟨rfl, rfl⟩, ?_⟩
        simp only [aliasTokens, List.nil_append, List.head?_cons]
        rw [isWord_reserved (by decide)]
        rfl
  | some a =>
    obtain ⟨name, withAs⟩ := a
    obtain ⟨hwhole, hkind⟩ := ha _ rfl
    cases withAs with
    | true =>
      refine ⟨true, _, ⟨?_, rfl⟩, ?_⟩
      · simp [aliasTokens, isWord_reserved (w := "AS") (by decide)]
      · simp only [if_true, run_bind_ok, run_take_ok, run_takeName_ok, run_pure_ok]
        exact ⟨word "AS", word name :: rest, rfl, name, rest, rfl, rfl, rfl⟩
    | false =>
      -- Only a call has a bare name, and none that could start something else.
      obtain ⟨rfl, hbare⟩ : afterCall = true ∧ BareAlias name := by simpa using hkind
      refine ⟨false, _, ⟨?_, rfl⟩, ?_⟩
      · simp [aliasTokens, Token.isWord, hbare.keyword]
      · simp only [Bool.false_eq_true, if_false, run_bind_ok, run_peek_ok]
        refine ⟨_, _, ⟨rfl, rfl⟩, ?_⟩
        have hclause : (word name).isWord clauseWords = false := hbare.clause
        have hpoint : (word name).text.toList.contains '.' = false := hbare.point
        simp only [aliasTokens, Bool.false_eq_true, if_false, List.singleton_append,
          List.head?_cons, hclause, hpoint]
        simp only [word, beq_self_eq_true, Bool.not_false, Bool.and_self, if_true, run_bind_ok,
          run_take_ok, run_pure_ok]
        exact ⟨_, rest, rfl, trivial, rfl⟩

/-- The text of a select item is that of what is selected, with its name. -/
theorem spells_alias {afterCall : Bool} {a : Option Alias} (ha : Named afterCall a) {expr : String}
    {ts : List Token} (h : Spells expr ts) :
    Spells (Alias.render expr a) (ts ++ aliasTokens a) := by
  cases a with
  | none => simpa [Alias.render, aliasTokens] using h
  | some a =>
    obtain ⟨name, withAs⟩ := a
    have hname : Spells name [word name] := (ha _ rfl).1.spells
    cases withAs with
    | true =>
      have has := (h.space (spells_word (w := "AS") (by decide))).space hname
      simpa [Alias.render, aliasTokens, String.append_assoc] using has
    | false => exact h.space hname

theorem names_spelled {names : List String} (hne : names ≠ []) (h : AllNames names) :
    Spelled anyFirst readNames (fun ts => ts.head?.any (·.isMark ",") = false)
      (joined ", " names) names := by
  have hname : ∀ name ∈ names, Spelled anyFirst (takeName "field") (fun _ => True) (id name) name := by
    intro name hname
    exact ⟨word name, [], trivial, (h name hname).spells, takeName_rereads _ _ _⟩
  cases names with
  | nil => exact absurd rfl hne
  | cons name names =>
    have hall := commaList_spelled (fun _ => trivial) (hname name (by simp))
      (fun y hy => hname y (List.mem_cons_of_mem _ hy))
    rw [List.map_id] at hall
    exact hall.weaken (fun _ h => h) (fun _ h => ⟨trivial, h⟩)

theorem readNames_yields : Yields readNames fun names => names ≠ [] ∧ AllNames names :=
  commaList_yields (takeName_yields _)

theorem readBranches_yields (fuel : Nat) :
    Yields (readBranches fuel) fun branches => ∀ b ∈ branches, b.Legible := by
  induction fuel with
  | zero =>
    intro ts rest branches h hts
    obtain ⟨rfl, rfl⟩ := run_pure_ok.mp h
    exact ⟨by simp, hts⟩
  | succ fuel ih =>
    intro ts rest branches h hts
    rw [readBranches] at h
    simp only [run_bind_ok, run_atWord_ok] at h
    obtain ⟨here, _, ⟨-, rfl⟩, h⟩ := h
    split at h
    · simp only [run_bind_ok, run_take_ok, run_takeName_ok, run_takeWord_ok, run_pure_ok] at h
      obtain ⟨w, _, rfl, object, _, rfl, _, _, ⟨w', rfl, -⟩, fields, mid, hfields, others, _, hothers,
        rfl, rfl⟩ := h
      obtain ⟨⟨hne, hnames⟩, hmid⟩ := readNames_yields hfields hts.tail.tail.tail
      obtain ⟨hall, hrest⟩ := ih hothers hmid
      refine ⟨?_, hrest⟩
      intro b hb
      rcases List.mem_cons.mp hb with rfl | hb
      · exact ⟨hts.tail.head, hnames, hne⟩
      · exact hall b hb
    · obtain ⟨rfl, rfl⟩ := run_pure_ok.mp h
      exact ⟨by simp, hts⟩

def EndsBranches (ts : List Token) : Prop :=
  ∃ rest, ts = word "ELSE" :: rest ∨ ts = word "END" :: rest

theorem branches_rereads {branches : List TypeBranch} (h : ∀ b ∈ branches, b.Legible) :
    ∃ rows, List.Forall₂ Spells (branches.map TypeBranch.render) rows ∧
      branches.length ≤ rows.flatten.length ∧
      (∀ rest, EndsBranches rest → (rows.flatten ++ rest).head?.any (·.isMark ",") = false) ∧
      ∀ fuel, branches.length < fuel → Rereads (readBranches fuel) EndsBranches rows.flatten branches := by
  -- The fuel only has to exceed the number of branches, so it is taken apart with them.
  induction branches with
  | nil =>
    refine ⟨[], List.Forall₂.nil, by simp, ?_, ?_⟩
    · rintro _ ⟨rest, rfl | rfl⟩ <;> rfl
    intro fuel hfuel rest hrest
    obtain ⟨fuel, rfl⟩ : ∃ n, fuel = n + 1 := ⟨fuel - 1, by simp at hfuel; omega⟩
    rw [readBranches]
    simp only [run_bind_ok, run_atWord_ok]
    refine ⟨false, _, ⟨?_, rfl⟩, rfl⟩
    obtain ⟨rest, rfl | rfl⟩ := hrest
    · simp [isWord_reserved (w := "ELSE") (by decide)]
    · simp [isWord_reserved (w := "END") (by decide)]
  | cons b branches ih =>
    obtain ⟨rows, hrows, hlen, hnext, hread⟩ := ih (fun c hc => h c (by simp [hc]))
    have hb := h b (by simp)
    obtain ⟨t, row, -, hrow, hfields⟩ := names_spelled hb.some hb.fields
    have hspells : Spells b.render
        ([word "WHEN", word b.object, word "THEN"] ++ (t :: row)) := by
      have hwhen := (spells_word (w := "WHEN") (by decide)).space hb.object.spells
      have hthen := (hwhen.space (spells_word (w := "THEN") (by decide))).space hrow
      simpa [TypeBranch.render, String.append_assoc] using hthen
    refine ⟨_ :: rows, List.Forall₂.cons hspells hrows, ?_, fun rest hrest => rfl, ?_⟩
    · simp only [List.flatten_cons, List.length_append, List.length_cons]
      omega
    · intro fuel hfuel rest hrest
      obtain ⟨fuel, rfl⟩ : ∃ n, fuel = n + 1 := ⟨fuel - 1, by simp at hfuel; omega⟩
      have hothers := hread fuel (by simp at hfuel; omega) rest hrest
      have hfields' := hfields (rows.flatten ++ rest) (hnext rest hrest)
      rw [readBranches]
      simp only [run_bind_ok, run_atWord_ok]
      refine ⟨true, _, ⟨?_, rfl⟩, ?_⟩
      · simp [isWord_reserved (w := "WHEN") (by decide)]
      · simp only [if_true, run_bind_ok, run_take_ok, run_takeName_ok, run_takeWord_ok, run_pure_ok]
        refine ⟨word "WHEN", _, rfl, b.object, _, rfl, (), _, ⟨word "THEN", rfl, ?_⟩, b.fields, _, ?_,
          branches, rest, hothers, rfl, rfl⟩
        · exact upper_reserved (by decide)
        · simpa using hfields'

def readOtherwise : Reader (List String) := do
  if ← atWord ["ELSE"] then
    let _ ← take
    readNames
  else return []

theorem readTypeOf_eq : (readTypeOf : Reader (SelectItem κ)) = (do
    takeWord "TYPEOF"
    let relationship ← takeName "relationship"
    let branches ← readBranches ((← get).length + 1)
    let otherwise ← readOtherwise
    takeWord "END"
    if branches.isEmpty then throw (.branchless relationship)
    return .typeOf relationship branches otherwise) := by
  unfold readTypeOf readOtherwise
  simp only [bind_assoc]
  congr! with
  split
  · simp only [bind_assoc]
  · rfl

theorem readOtherwise_yields : Yields readOtherwise AllNames := by
  intro ts rest names h hts
  unfold readOtherwise at h
  simp only [run_bind_ok, run_atWord_ok] at h
  obtain ⟨here, _, ⟨-, rfl⟩, h⟩ := h
  split at h
  · simp only [run_bind_ok, run_take_ok] at h
    obtain ⟨t, _, rfl, hnames⟩ := h
    obtain ⟨⟨-, hall⟩, hrest⟩ := readNames_yields hnames hts.tail
    exact ⟨hall, hrest⟩
  · obtain ⟨rfl, rfl⟩ := run_pure_ok.mp h
    exact ⟨by simp [AllNames], hts⟩

theorem readTypeOf_sound {inner : κ → Prop} {ts rest : List Token} {item : SelectItem κ}
    (h : readTypeOf.run ts = .ok (item, rest)) (hts : AllWhole ts) :
    item.Legible inner ∧ AllWhole rest := by
  rw [readTypeOf_eq] at h
  simp only [run_bind_ok, run_takeWord_ok, run_takeName_ok, run_get_ok, throw_bind, run_bar_ok,
    run_pure_ok, List.isEmpty_iff] at h
  obtain ⟨_, _, ⟨w, rfl, -⟩, relationship, _, rfl, _, _, ⟨rfl, rfl⟩, branches, mid, hbranches,
    otherwise, after, hotherwise, _, _, ⟨w', rfl, -⟩, hne, rfl, rfl⟩ := h
  obtain ⟨hall, hmid⟩ := readBranches_yields _ hbranches hts.tail.tail
  obtain ⟨hnames, hafter⟩ := readOtherwise_yields hotherwise hmid
  exact ⟨⟨hts.tail.head, hne, hall, hnames⟩, hafter.tail⟩

/-- The fields of all other types, with the word in front of them. -/
theorem otherwise_rereads {otherwise : List String} (h : AllNames otherwise) :
    ∃ rows, List.Forall₂ Spells
        (if otherwise.isEmpty then [] else ["ELSE " ++ joined ", " otherwise]) rows ∧
      ∀ rest, EndsBranches (rows.flatten ++ word "END" :: rest) ∧
        readOtherwise.run (rows.flatten ++ word "END" :: rest) =
          .ok (otherwise, word "END" :: rest) := by
  unfold readOtherwise
  simp only [run_bind_ok, run_atWord_ok]
  cases otherwise with
  | nil =>
    refine ⟨[], List.Forall₂.nil, ?_⟩
    intro rest
    refine ⟨⟨rest, Or.inr rfl⟩, false, _, ⟨?_, rfl⟩, rfl⟩
    simp [isWord_reserved (w := "END") (by decide)]
  | cons name names =>
    obtain ⟨t, row, -, hrow, hread⟩ := names_spelled (by simp) h
    have hspells := (spells_word (w := "ELSE") (by decide)).space hrow
    refine ⟨[_], List.Forall₂.cons hspells List.Forall₂.nil, ?_⟩
    intro rest
    refine ⟨⟨_, Or.inl rfl⟩, true, _, ⟨?_, rfl⟩, ?_⟩
    · simp [isWord_reserved (w := "ELSE") (by decide)]
    · simp only [if_true, run_bind_ok, run_take_ok]
      refine ⟨word "ELSE", _, rfl, ?_⟩
      have hnames := hread (word "END" :: rest) rfl
      simpa using hnames

theorem typeOf_spelled {inner : κ → Prop} (text : κ → String) {relationship : String}
    {branches : List TypeBranch} {otherwise : List String}
    (h : (SelectItem.typeOf relationship branches otherwise : SelectItem κ).Legible inner) :
    Spelled (· = word "TYPEOF") (readTypeOf : Reader (SelectItem κ)) (fun _ => True)
      ((SelectItem.typeOf relationship branches otherwise).render text)
      (.typeOf relationship branches otherwise) := by
  obtain ⟨hrel, hne, hbranches, hotherwise⟩ := h
  obtain ⟨rows, hrows, hlen, -, hread⟩ := branches_rereads hbranches
  obtain ⟨last, hlast, helse⟩ := otherwise_rereads hotherwise
  have hfirst : Spells ("TYPEOF " ++ relationship) [word "TYPEOF", word relationship] :=
    (spells_word (w := "TYPEOF") (by decide)).space hrel.spells
  have hend : List.Forall₂ Spells ["END"] [[word "END"]] :=
    List.Forall₂.cons (spells_word (by decide)) List.Forall₂.nil
  have hall := List.rel_append (List.rel_append (List.Forall₂.cons hfirst hrows) hlast) hend
  have hspells := spells_joined (by simp) hall writes_joined_space
  refine ⟨word "TYPEOF", word relationship :: (rows.flatten ++ (last.flatten ++ [word "END"])), rfl,
    ?_, ?_⟩
  · simpa [SelectItem.render] using hspells
  · intro rest hrest
    obtain ⟨hends, hotherwise'⟩ := helse rest
    rw [readTypeOf_eq]
    simp only [run_bind_ok, run_takeWord_ok, run_takeName_ok, run_get_ok, throw_bind, run_bar_ok,
      run_pure_ok, List.isEmpty_iff]
    refine ⟨(), _, ⟨word "TYPEOF", rfl, upper_reserved (by decide)⟩, relationship, _, rfl, _, _,
      ⟨rfl, rfl⟩, branches, last.flatten ++ word "END" :: rest, ?_, otherwise, _, hotherwise', (), rest,
      ⟨_, rfl, upper_reserved (by decide)⟩, hne, rfl, rfl⟩
    have hbranches' := hread ((rows.flatten ++ (last.flatten ++ word "END" :: rest)).length + 1)
      (by simp only [List.length_append]; omega) _ hends
    simpa using hbranches'

/-- What stands in place of an inner query is read as a query of a kind, and such a query is read
again from its text up to the closing parenthesis. -/
structure Rereadable (inside : Inside κ) (text : κ → String) (clear : κ → Bool)
    (legible : κ → Prop) : Prop where
  child : Yields inside.child fun q => clear q = true → legible q
  semiJoin : Yields inside.semiJoin fun q => clear q = true → legible q
  spelled : ∀ q, legible q → ∃ ts, Spells (text q) (word "SELECT" :: ts) ∧ ∀ rest,
    inside.child.run (word "SELECT" :: ts ++ closing :: rest) = .ok (q, rest) ∧
    inside.semiJoin.run (word "SELECT" :: ts ++ closing :: rest) = .ok (q, rest)

variable {inside : Inside κ} {text : κ → String} {clear : κ → Bool} {legible : κ → Prop}

/-- The ways in which a select item is read: a query in parentheses, a relationship by type, a call or a
field. -/
inductive ItemRead (inside : Inside κ) (ts rest : List Token) : SelectItem κ → Prop
  | child {after : List Token} {q : κ} (hts : ts = opening :: after)
    (hq : inside.child.run after = .ok (q, rest)) : ItemRead inside ts rest (.child q)
  | typeOf {item : SelectItem κ} (hitem : readTypeOf.run ts = .ok (item, rest)) : ItemRead inside ts rest item
  | call {name : String} {after mid : List Token} {args : List String} {a : Option Alias}
    (hts : ts = word name :: after) (hname : (word name).Whole → Selectable name)
    (hargs : readArguments.run after = .ok (args, mid)) (ha : (readAlias true).run mid = .ok (a, rest)) :
    ItemRead inside ts rest (.call name args a)
  | field {name : String} {after : List Token} {a : Option Alias}
    (hts : ts = word name :: after) (hname : (word name).Whole → Selectable name)
    (ha : (readAlias false).run after = .ok (a, rest)) : ItemRead inside ts rest (.field name a)

theorem itemRead_of_run {ts rest : List Token} {item : SelectItem κ}
    (h : (readItem inside).run ts = .ok (item, rest)) : ItemRead inside ts rest item := by
  unfold readItem at h
  simp only [run_bind_ok, run_atMark_ok] at h
  obtain ⟨open?, _, ⟨hopen, rfl⟩, h⟩ := h
  split at h
  · rename_i hparenthesis
    simp only [run_bind_ok, run_take_ok, run_pure_ok] at h
    obtain ⟨t, _, rfl, q, after, hq, rfl, rfl⟩ := h
    obtain rfl : t = opening := isMark_iff.mp (hopen.trans hparenthesis)
    exact .child rfl hq
  · simp only [run_bind_ok, run_atWord_ok] at h
    obtain ⟨typeOf?, _, ⟨htypeOf, rfl⟩, h⟩ := h
    split at h
    · exact .typeOf h
    · rename_i hnot
      simp only [run_bind_ok, run_takeName_ok, throw_bind, run_bar_ok, run_atMark_ok] at h
      obtain ⟨name, _, rfl, hclause, call?, _, ⟨-, rfl⟩, h⟩ := h
      have hname : (word name).Whole → Selectable name := by
        intro hwhole
        refine ⟨hwhole, by simpa [Token.upper] using hclause, ?_⟩
        intro hupper
        apply hnot
        rw [← htypeOf]
        simp [Token.isWord, hupper]
      split at h
      · simp only [run_bind_ok, run_pure_ok] at h
        obtain ⟨args, mid, hargs, a, after, ha, rfl, rfl⟩ := h
        exact .call rfl hname hargs ha
      · simp only [run_bind_ok, run_pure_ok] at h
        obtain ⟨a, after, ha, rfl, rfl⟩ := h
        exact .field rfl hname ha

theorem readItem_yields (hin : Rereadable inside text clear legible) :
    Yields (readItem inside) fun item => item.isClear clear = true → item.Legible legible := by
  intro ts rest item h hts
  cases itemRead_of_run h with
  | child heq hq =>
    subst heq
    exact hin.child hq hts.tail
  | typeOf hitem =>
    have hitem' : item.Legible legible ∧ AllWhole rest := readTypeOf_sound hitem hts
    exact ⟨fun _ => hitem'.1, hitem'.2⟩
  | call heq hname hargs ha =>
    subst heq
    obtain ⟨hargs, hmid⟩ := readArguments_sound hargs hts.tail
    obtain ⟨hrest, hnamed⟩ := readAlias_sound ha hmid
    refine ⟨?_, hrest⟩
    intro hclear
    exact ⟨hname hts.head, hargs, by simpa [SelectItem.isClear] using hclear, hnamed⟩
  | field heq hname ha =>
    subst heq
    obtain ⟨hrest, hnamed⟩ := readAlias_sound ha hts.tail
    exact ⟨fun _ => ⟨hname hts.head, hnamed⟩, hrest⟩

/-- What is selected under a name: a call or a field, with its own name. -/
def readSelected (name : String) : Reader (SelectItem κ) := do
  if ← atMark "(" then
    let args ← readArguments
    return .call name args (← readAlias true)
  else return .field name (← readAlias false)

theorem readItem_name {name : String} (h : Selectable name) (ts : List Token) :
    (readItem inside).run (word name :: ts) = (readSelected name).run ts := by
  have hclause : clauseWords.contains (name.map Char.toUpper) = false := h.clause
  have htake : (takeName "field").run (word name :: ts) = .ok (name, ts) := run_takeName_ok.mpr rfl
  unfold readItem readSelected
  simp only [StateT.run_bind, run_atMark, ok_bind, List.head?_cons, Option.any_some]
  rw [if_neg (by simp [isMark, word]), StateT.run_bind, run_atWord, ok_bind, if_neg, StateT.run_bind,
    htake, ok_bind, hclause]
  · rfl
  · simp [Token.isWord, h.typeOf]

theorem aliasTokens_notOpening (a : Option Alias) {rest : List Token} (h : EndsItem rest) :
    NotOpening (aliasTokens a ++ rest) := by
  cases a with
  | none => exact h.notOpening
  | some a =>
    obtain ⟨name, withAs⟩ := a
    cases withAs <;> rfl

theorem item_spelled (hin : Rereadable inside text clear legible) {item : SelectItem κ}
    (h : item.Legible legible) :
    Spelled anyFirst (readItem inside) EndsItem (item.render text) item := by
  cases item with
  | field path a =>
    obtain ⟨hname, hnamed⟩ := h
    refine ⟨word path, aliasTokens a, trivial, spells_alias hnamed hname.whole.spells, ?_⟩
    intro rest hrest
    rw [List.cons_append, readItem_name hname]
    unfold readSelected
    simp only [run_bind_ok, run_atMark_ok]
    refine ⟨false, _, ⟨aliasTokens_notOpening a hrest, rfl⟩, ?_⟩
    simp only [Bool.false_eq_true, if_false, run_bind_ok, run_pure_ok]
    exact ⟨a, rest, readAlias_rereads hnamed rest hrest, rfl, rfl⟩
  | call name args a =>
    obtain ⟨hname, hargs, hlast, hnamed⟩ := h
    obtain ⟨ts, hspells, hread⟩ := hargs.spelled hname.whole hlast
    refine ⟨word name, opening :: ts ++ aliasTokens a, trivial, spells_alias hnamed hspells, ?_⟩
    intro rest hrest
    rw [List.cons_append, readItem_name hname]
    unfold readSelected
    simp only [run_bind_ok, run_atMark_ok]
    refine ⟨true, _, ⟨rfl, rfl⟩, ?_⟩
    simp only [if_true, run_bind_ok, run_pure_ok]
    refine ⟨args, aliasTokens a ++ rest, ?_, a, rest, readAlias_rereads hnamed rest hrest, rfl, rfl⟩
    simpa using hread (fun _ => True) (aliasTokens a ++ rest) trivial
  | child q =>
    obtain ⟨ts, hspells, hread⟩ := hin.spelled q h
    refine ⟨opening, word "SELECT" :: ts ++ [closing], trivial, ?_, ?_⟩
    · have hclosed := hspells.writes.closed.after_opening
      rwa [← String.append_assoc] at hclosed
    · intro rest hrest
      unfold readItem
      simp only [run_bind_ok, run_atMark_ok]
      refine ⟨true, _, ⟨rfl, rfl⟩, ?_⟩
      simp only [if_true, run_bind_ok, run_take_ok, run_pure_ok]
      refine ⟨opening, _, rfl, q, rest, ?_, rfl, rfl⟩
      simpa using (hread rest).1
  | typeOf relationship branches otherwise =>
    obtain ⟨t, ts, rfl, hspells, hread⟩ := typeOf_spelled text h
    refine ⟨word "TYPEOF", ts, trivial, hspells, ?_⟩
    intro rest hrest
    unfold readItem
    simp only [run_bind_ok, run_atMark_ok]
    refine ⟨false, _, ⟨rfl, rfl⟩, ?_⟩
    simp only [Bool.false_eq_true, if_false, run_bind_ok, run_atWord_ok]
    refine ⟨true, _, ⟨?_, rfl⟩, hread rest trivial⟩
    simp [isWord_reserved (w := "TYPEOF") (by decide)]

end Soql.Query
