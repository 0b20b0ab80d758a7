import Soql.Proofs.Query.Shapes

namespace Soql

open Text

namespace Token

/-- A text is tokens and blanks, one after the other. -/
inductive Splits : List Char → List Token → Prop
  | done : Splits [] []
  | blanks {gap s : List Char} {ts : List Token} (hne : gap ≠ []) (hgap : ∀ c ∈ gap, isBlank c = true)
    (h : Splits s ts) : Splits (gap ++ s) ts
  | token {kind : TokenKind} {text s : List Char} {ts : List Token} (hshape : Shape kind text) (h : Splits s ts) :
    Splits (text ++ s) (⟨kind, .ofList text⟩ :: ts)

/-- The token that a text is, unless it is blanks. -/
def found (kind? : Option TokenKind) (text : List Char) : List Token :=
  (kind?.map fun kind => ⟨kind, .ofList text⟩).toList

/-- One step of the reading adds a token or blanks in front of a text that is split. -/
theorem Splits.step {c : Char} {rest s : List Char} {kind? : Option TokenKind} {n : Nat} {ts : List Token}
    (hstart : start c rest = some (kind?, n)) (h : Splits s ts) :
    Splits (c :: rest.take n ++ s) (found kind? (c :: rest.take n) ++ ts) := by
  cases kind? with
  | some kind => exact .token (shape_of_start hstart) h
  | none =>
    refine .blanks (List.cons_ne_nil _ _) ?_ h
    cases start_iff.mp hstart with
    | blank hc =>
      rw [← List.prefix_iff_eq_take.mp (List.takeWhile_prefix isBlank), List.forall_mem_cons]
      exact ⟨hc, fun d hd => List.mem_takeWhile_imp hd⟩

theorem splits_of_scan {p : Nat} {s : List Char} {ts : List Token} (h : scan p s = .ok ts) : Splits s ts := by
  fun_induction scan p s generalizing ts with
  | case1 =>
    cases h
    exact .done
  | case2 => cases h
  | case3 => cases h
  | case4 p c rest n ts hrec kind hstart ih =>
    cases h
    have hsplits := (ih hrec).step hstart
    rwa [List.cons_append, List.take_append_drop] at hsplits
  | case5 p c rest n ts hrec hstart ih =>
    cases h
    have hsplits := (ih hrec).step hstart
    rwa [List.cons_append, List.take_append_drop] at hsplits

/-- Where the reading ends, all before is split, and nothing starts. -/
theorem splits_of_scan_error {p q : Nat} {s : List Char} {c : Char} (h : scan p s = .error (c, q)) :
    ∃ front rest before, s = front ++ c :: rest ∧ q = p + front.length ∧ Splits front before ∧
      start c rest = none := by
  fun_induction scan p s with
  | case1 => cases h
  | case2 p c rest hnone =>
    cases h
    exact ⟨[], rest, [], rfl, rfl, .done, hnone⟩
  | case3 p d rest kind? n hstart e hrec ih =>
    cases h
    obtain ⟨front, back, before, hrest, rfl, hsplits, hnone⟩ := ih hrec
    refine ⟨d :: rest.take n ++ front, back, _, ?_, ?_, hsplits.step hstart, hnone⟩
    · rw [List.append_assoc, ← hrest, List.cons_append, List.take_append_drop]
    · have hlength : (rest.take n).length = n := List.length_take_of_le (start_le hstart)
      simp only [List.length_append, List.length_cons, hlength]
      omega
  | case4 => cases h
  | case5 => cases h

/-- The text of tokens that were read is read as these tokens. -/
theorem ofText_rowText {ts : List Token} (h : ∀ t ∈ ts, t.Whole) : ofText (rowText ts) = .ok ts :=
  (writes_rowText h).lexes 0

end Token

namespace Query

open Token

/-- Arguments that are kept as texts: each is the text of tokens next to each other, and is read as these
tokens, alone and together with the others. Together they are read as the same arguments again; only where
the last one is empty, so that it has no tokens, it is left out. -/
structure KeptArguments (ts : List Token) (args : List String) (parts : List (List Token)) : Prop where
  texts : args = parts.map rowText
  among : ∀ part ∈ parts, part <:+: ts
  reread : ∀ part ∈ parts, ofText (rowText part) = .ok part
  together : ofText ("(" ++ joined ", " args ++ ")") = .ok (argumentRow parts)
  again : ∀ more, readArguments.run (argumentRow parts ++ more) =
    .ok (if args.getLast? = some "" then args.dropLast else args, more)

theorem readArguments_kept {ts rest : List Token} {args : List String}
    (h : readArguments.run ts = .ok (args, rest)) (hts : AllWhole ts) : ∃ parts, KeptArguments ts args parts := by
  obtain ⟨all, -, rfl, hwalk, rfl⟩ := readArguments_cut h
  generalize hparts : (if all.getLast?.any List.isEmpty then all.dropLast else all) = parts
  have hsub : ∀ part ∈ parts, part ∈ all := by
    rw [← hparts]
    split
    · exact fun part hpart => List.mem_of_mem_dropLast hpart
    · exact fun part hpart => hpart
  have hamong : ∀ part ∈ parts, part <:+: opening :: ([comma].intercalate all ++ closing :: rest) := by
    intro part hpart
    have hrow : part <:+: [comma].intercalate all := infix_intercalate (hsub part hpart)
    exact List.infix_cons (hrow.trans (List.prefix_append _ _).isInfix)
  have hwhole : ∀ part ∈ parts, AllWhole part := fun part hpart t ht => hts t ((hamong part hpart).mem ht)
  refine ⟨parts, rfl, hamong, fun part hpart => ofText_rowText (hwhole part hpart), ?_, fun more => ?_⟩
  · have hwrites := (writes_rowTexts hwhole).close.after_opening
    rw [← String.append_assoc] at hwrites
    exact hwrites.lexes 0
  · rw [run_readArguments_row fun part hpart => hwalk part (hsub part hpart)]
    simp only [getLast?_rowText_iff hwhole, apply_ite (List.map rowText), List.map_dropLast]

/-- A condition on groups that is kept as a text: of tokens next to each other, which are read again from the
text, and as the same condition. -/
structure KeptHaving (ts : List Token) (text : String) (part : List Token) : Prop where
  eq : text = rowText part
  among : part <:+: ts
  reread : ofText text = .ok part
  again : readHaving.run part = .ok (text, [])

theorem readHaving_kept {ts rest : List Token} {text : String} (h : readHaving.run ts = .ok (text, rest))
    (hts : AllWhole ts) : ∃ part, KeptHaving ts text part := by
  obtain ⟨part, hne, hcut, rfl⟩ := run_readHaving_ok.mp h
  obtain ⟨rfl, depth, hwalk, -⟩ := clauseTokens_sound hcut
  refine ⟨part, rfl, (List.prefix_append _ _).isInfix, ?_, ?_⟩
  · exact ofText_rowText fun t ht => hts t (List.mem_append_left _ ht)
  · have hagain := clauseTokens_row hwalk (.inl rfl)
    rw [List.append_nil] at hagain
    exact run_readHaving_ok.mpr ⟨part, hne, hagain, rfl⟩

end Query

/-- Either reading the tokens of a text ends at a character where no token starts and no blanks stand, or the
text is split into tokens and blanks. Then any tokens next to each other are read again from the text in
which they are written in a row. So are those that a query keeps as texts, wherever in the row it finds them:
arguments and conditions on groups. -/
theorem Token.ofText_splits (s : String) :
    (∃ c front rest before, ofText s = .error (c, front.length) ∧ s.toList = front ++ c :: rest ∧
      Splits front before ∧ isBlank c = false ∧ ∀ kind text, text <+: c :: rest → ¬Shape kind text) ∨
    ∃ ts, ofText s = .ok ts ∧ Splits s.toList ts ∧
      (∀ part, part <:+: ts → ofText (rowText part) = .ok part) ∧
      ∀ row, row <:+ ts →
        (∀ args rest, Query.readArguments.run row = .ok (args, rest) →
          ∃ parts, Query.KeptArguments row args parts) ∧
        ∀ text rest, Query.readHaving.run row = .ok (text, rest) → ∃ part, Query.KeptHaving row text part := by
  cases hscan : ofText s with
  | error e =>
    obtain ⟨c, q⟩ := e
    obtain ⟨front, rest, before, htext, rfl, hsplits, hnone⟩ := splits_of_scan_error hscan
    obtain ⟨hblank, hshapes⟩ := start_eq_none_iff.mp hnone
    rw [Nat.zero_add]
    exact .inl ⟨c, front, rest, before, rfl, htext, hsplits, hblank, hshapes⟩
  | ok ts =>
    have hwhole : Query.AllWhole ts := whole_of_scan hscan
    refine .inr ⟨ts, rfl, splits_of_scan hscan, fun part hpart => ?_, fun row hrow => ⟨?_, ?_⟩⟩
    · exact ofText_rowText fun t ht => hwhole t (hpart.mem ht)
    · exact fun args rest hread => Query.readArguments_kept hread fun t ht => hwhole t (hrow.mem ht)
    · exact fun text rest hread => Query.readHaving_kept hread fun t ht => hwhole t (hrow.mem ht)

def Token.comparisonTokens : List Token :=
  [word "COUNT", opening, word "N_DAYS:3", ⟨.number, "-1"⟩, comma, ⟨.literal, "'a\\', ('"⟩, comma, closing,
    ⟨.operator, "<>"⟩, ⟨.bind, ":n"⟩]

theorem Token.ofText_splits_comparison :
    ofText "COUNT ( N_DAYS:3-1 ,'a\\', (' , )<>:n" = .ok comparisonTokens ∧
      Splits "COUNT ( N_DAYS:3-1 ,'a\\', (' , )<>:n".toList comparisonTokens ∧
      ofText "N_DAYS:3 -1," = .ok [word "N_DAYS:3", ⟨.number, "-1"⟩, comma] ∧
      (∃ parts, Query.KeptArguments (comparisonTokens.drop 1) ["N_DAYS:3 -1", "'a\\', ('"] parts) ∧
      ∃ part, Query.KeptHaving (comparisonTokens.drop 8) "<> :n" part := by
  have htokens : ofText "COUNT ( N_DAYS:3-1 ,'a\\', (' , )<>:n" = .ok comparisonTokens := by decide +kernel
  rcases ofText_splits "COUNT ( N_DAYS:3-1 ,'a\\', (' , )<>:n" with
    ⟨c, front, rest, before, herror, -⟩ | ⟨ts, hok, hsplits, hparts, hkept⟩
  · cases htokens.symm.trans herror
  · obtain rfl : comparisonTokens = ts := Except.ok.inj (htokens.symm.trans hok)
    refine ⟨htokens, hsplits, ?_, ?_, ?_⟩
    · have hpart : (comparisonTokens.drop 2).take 3 <:+: comparisonTokens :=
        (List.take_prefix _ _).isInfix.trans (List.drop_suffix _ _).isInfix
      exact hparts _ hpart
    · exact (hkept _ (List.drop_suffix 1 _)).1 _ (comparisonTokens.drop 8) rfl
    · exact (hkept _ (List.drop_suffix 8 _)).2 _ [] (by decide +kernel)

end Soql
