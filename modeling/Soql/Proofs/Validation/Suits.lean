import Soql.Proofs.Repair.Fits
import Soql.Proofs.Validation.PathErrors
import Soql.Proofs.Validation.Writable

namespace Soql

open Text Token Query

section LetterCase

theorem mem_lowerAfter {s : List Char} {c d : Char} (hc : c ∈ s) (hsigma : c.toNat ≠ 0x3a3)
    (hd : d ∈ lowerRun c) (cased : Bool) : d ∈ lowerAfter cased s := by
  induction s generalizing cased with
  | nil => cases hc
  | cons e s ih =>
    rw [lowerAfter]
    rcases List.mem_cons.mp hc with rfl | hc
    · rw [if_neg (by simpa using hsigma)]
      exact List.mem_append_left _ hd
    · split
      · exact List.mem_cons_of_mem _ (ih hc _)
      · exact List.mem_append_right _ (ih hc _)

/-- A closing parenthesis stays where a text is written in lower case. -/
theorem closing_mem_lower {s : String} (h : ')' ∈ s.toList) : ')' ∈ (lower s).toList := by
  rw [lower, String.toList_ofList]
  exact mem_lowerAfter h (by decide) (by decide) false

theorem closing_not_mem_lower {w : String} (h : isPath w = true) : ')' ∉ (lower w).toList := by
  have hchars := (pathText_of_isPath h).chars
  rw [toList_lower (sigmaFree_of_isPath h), List.mem_flatMap]
  rintro ⟨c, hc, hmem⟩
  have hnone := of_ascii (p := fun c => !isPathChar c || !(lowerRun c).contains ')') (by decide)
    (toNat_lt_of_isPath h c hc)
  simp only [hchars c hc, Bool.not_true, Bool.false_or, Bool.not_eq_true', ← Bool.not_eq_true,
    List.contains_iff_mem] at hnone
  exact hnone hmem

theorem closing_mem_callText (name : String) (args : List String) :
    ∃ front, (callText name args).toList = front ++ [')'] := by
  rw [callText, String.toList_append]
  exact ⟨_, rfl⟩

theorem mem_getLast_pieces {p : Char → Bool} {c : Char} (hc : p c = false) (s : List Char) :
    ∃ last, (pieces p (s ++ [c])).getLast? = some last ∧ c ∈ last := by
  induction s with
  | nil => exact ⟨[c], by simp [pieces, hc], List.mem_singleton_self c⟩
  | cons d s ih =>
    obtain ⟨last, hlast, hmem⟩ := ih
    rw [List.cons_append]
    by_cases hd : p d = true
    · refine ⟨last, ?_, hmem⟩
      rw [pieces, if_pos hd, List.getLast?_cons, hlast]
      rfl
    · rw [pieces_cons_of_not_sep (by simpa using hd)]
      -- The first part grows; it may be the last one as well.
      cases hpieces : pieces p (s ++ [c]) with
      | nil => exact absurd hpieces (pieces_ne_nil p _)
      | cons first others =>
        rw [hpieces] at hlast
        cases others with
        | nil =>
          obtain rfl : first = last := by simpa using hlast
          exact ⟨d :: first, rfl, List.mem_cons_of_mem d hmem⟩
        | cons second others => exact ⟨last, by simpa using hlast, hmem⟩

/-- The last part of a text holds the text's last character. -/
theorem mem_lastSegment {s : String} {front : List Char} {c : Char} (h : s.toList = front ++ [c])
    (hc : c ≠ '.') : c ∈ (lastSegment s).toList := by
  have hpoint : (c == '.') = false := by simpa using hc
  obtain ⟨last, hlast, hmem⟩ := mem_getLast_pieces (p := (· == '.')) hpoint front
  rw [lastSegment, segments, splitAt, h, List.getLastD_eq_getLast?, List.getLast?_map, hlast]
  simpa using hmem

/-- An expression with the lower case of a path is no call. -/
theorem isProper_of_sameLower {e path : String} (h : Orderly e) (hpath : isPath path = true)
    (hsame : lower e = lower path) : isProper e = true := by
  cases h with
  | name hname => exact hname
  | call hname hargs hlast =>
    obtain ⟨front, hfront⟩ := closing_mem_callText _ _
    have hmem : ')' ∈ (lower path).toList := by
      rw [← hsame]
      exact closing_mem_lower (hfront ▸ List.mem_append_right front (List.mem_singleton_self _))
    exact absurd hmem (closing_not_mem_lower hpath)

end LetterCase

def Suits (messages : List Message) : Prop :=
  ∀ m ∈ messages, ∀ a ∈ m.action, a.Fits

theorem suits_append {first second : List Message} (h : Suits first) (h' : Suits second) :
    Suits (first ++ second) := by
  intro m hm
  rcases List.mem_append.mp hm with hm | hm
  · exact h m hm
  · exact h' m hm

theorem suits_flatMap {α : Type} {items : List α} {f : α → List Message} (h : ∀ a ∈ items, Suits (f a)) :
    Suits (items.flatMap f) := by
  intro m hm
  obtain ⟨a, ha, hm⟩ := List.mem_flatMap.mp hm
  exact h a ha m hm

theorem suits_nil : Suits [] :=
  fun m hm => by cases hm

/-- Messages without corrections. -/
theorem suits_of_none {messages : List Message} (h : ∀ m ∈ messages, m.action = none) : Suits messages := by
  intro m hm a ha
  rw [h m hm] at ha
  cases ha

theorem suits_unanswered (rule text : String) : Suits [.error rule text none] := by
  apply suits_of_none
  intro m hm
  rw [List.mem_singleton.mp hm]
  rfl

namespace Validator

variable {q : Query} {context : Context} {main : SObject}

theorem aliasRule_suits (q : Query) : Suits (aliasRule q) := by
  unfold aliasRule
  split
  · intro m hm a ha
    rw [List.mem_singleton.mp hm] at ha
    cases ha
    trivial
  · exact suits_nil

theorem bindRule_suits (q : Query) : Suits (bindRule q) := by
  apply suits_of_none
  intro m hm
  obtain ⟨c, -, rfl⟩ := List.mem_map.mp hm
  rfl

theorem havingRule_suits (q : Query) : Suits (havingRule q) := by
  unfold havingRule
  split
  · exact suits_unanswered _ _
  · exact suits_nil

/-- The relationships behind record ids are named by identifiers, and no call ends like their fields. -/
theorem idRelationships_plain : ∀ pair ∈ Vocabulary.idRelationships,
    ')' ∉ pair.1.toList ∧ isIdent pair.2 = true := by
  decide

theorem isProper_of_idRelationship {field relationship : String} (h : Orderly field)
    (hlookup : Vocabulary.idRelationships.lookup (lower (lastSegment field)) = some relationship) :
    isProper field = true := by
  cases h with
  | name hname => exact hname
  | @call name args hname hargs hlast =>
    obtain ⟨front, hfront⟩ := closing_mem_callText name args
    have hmem := closing_mem_lower (mem_lastSegment hfront (by decide))
    exact absurd hmem (idRelationships_plain _ (mem_of_lookup hlookup)).1

/-- The names that are written without being looked up are no reserved words. -/
theorem fixed_names : reservedWords.contains ("Name".map Char.toUpper) = false ∧ isProper "Id" = true ∧
    ∀ j ∈ Vocabulary.junctions, isFieldName j.link = true := by
  decide +kernel

/-- A name is filtered in place of a record id. -/
theorem renames_toName {field relationship : String} (hfield : isPath field = true)
    (hrelationship : isIdent relationship = true) :
    Renames field (joined "." ((segments field).dropLast ++ [relationship, "Name"])) := by
  have hall : ∀ s ∈ (segments field).dropLast ++ [relationship, "Name"], isIdent s = true := by
    intro s hs
    rw [List.mem_append, List.mem_cons, List.mem_singleton] at hs
    rcases hs with hs | rfl | rfl
    · exact List.all_eq_true.mp hfield s (List.dropLast_subset _ hs)
    · exact hrelationship
    · decide
  refine ⟨hfield, isPath_joined (by simp) hall, ?_⟩
  have hlast : lastSegment (joined "." ((segments field).dropLast ++ [relationship, "Name"])) = "Name" :=
    lastSegment_joined hall (by simp)
  rw [endsReserved, hlast, fixed_names.1]
  intro hreserved
  cases hreserved

theorem likeIdRule_suits (h : q.Sturdy) : Suits (likeIdRule q) := by
  intro m hm a ha
  obtain ⟨c, hc, hsome⟩ := List.mem_filterMap.mp hm
  have hfield : Orderly c.field := h.clauses.leaves _ (mem_comparisons.mp hc)
  simp only [likeIdError] at hsome
  split at hsome
  · cases hsome
  · split at hsome
    · cases hsome
    · split at hsome
      · rename_i relationship hlookup
        cases hsome
        cases ha
        have hproper := isProper_of_idRelationship hfield hlookup
        have hrelationship := (idRelationships_plain _ (mem_of_lookup hlookup)).2
        exact renames_toName (isPath_of_isProper hproper) hrelationship
      · cases hsome
        cases ha

theorem syntaxRules_suits (h : q.Sturdy) : Suits (syntaxRules q) :=
  suits_append (suits_append (suits_append (aliasRule_suits q) (bindRule_suits q)) (havingRule_suits q))
    (likeIdRule_suits h)

theorem toolingRule_suits (q : Query) (mainName : String) : Suits (toolingRule q mainName) := by
  unfold toolingRule
  split
  · apply suits_of_none
    intro m hm
    obtain ⟨p, -, rfl⟩ := List.mem_map.mp hm
    rfl
  · exact suits_nil

section Schema

variable (hcontext : context.isWritable = true)

include hcontext

theorem isIdent_knownNames : ∀ name ∈ knownNames context, isIdent name = true := by
  intro name hname
  rcases List.mem_append.mp hname with hknown | hname
  · exact Context.isIdent_known hcontext name hknown
  · obtain ⟨entry, hentry, rfl⟩ := List.mem_map.mp (List.mem_filter.mp hname).1
    exact (Context.isWritable_catalog hcontext entry hentry).1

theorem mainObjectOf_suits : Suits (mainObjectOf q context).2 ∧
    ∀ main ∈ (mainObjectOf q context).1, main.isWritable = true := by
  unfold mainObjectOf
  split
  · rename_i o ho
    refine ⟨suits_nil, ?_⟩
    intro main hmain
    cases hmain
    exact Context.isWritable_get? hcontext ho
  · simp only
    split
    · exact ⟨suits_nil, fun main hmain => by cases hmain⟩
    · split
      · rename_i suggestion hclosest
        refine ⟨?_, fun main hmain => Context.isWritable_get? hcontext hmain⟩
        intro m hm a ha
        rw [List.mem_singleton.mp hm] at ha
        cases ha
        exact isIdent_knownNames hcontext suggestion (Nearest.mem_of_closestName hclosest)
      · exact ⟨suits_unanswered _ _, fun main hmain => by cases hmain⟩

end Schema

/-- The references of a sturdy query are to paths. -/
theorem isPath_of_mem_references {κ : Type} {inner child : κ → Prop} {q : QueryOf κ} (h : q.Sturdy inner child) :
    ∀ r ∈ q.references, isPath r.path = true := by
  intro r hr
  simp only [QueryOf.references, List.mem_append, List.mem_map, List.mem_flatMap] at hr
  rcases hr with ((⟨path, ⟨item, hitem, hpath⟩, rfl⟩ | ⟨path, ⟨l, -, hpath⟩, rfl⟩) | ⟨path, ⟨e, -, hpath⟩, rfl⟩) |
    ⟨path, ⟨k, -, hpath⟩, rfl⟩
  · cases item with
    | field written alias? =>
      rw [List.mem_singleton.mp hpath]
      exact isPath_of_isProper (h.items _ hitem)
    | call name args alias? =>
      obtain ⟨arg, -, hpath⟩ := List.mem_flatMap.mp hpath
      exact isPath_of_mem_fieldPaths hpath
    | child q => cases hpath
    | typeOf relationship branches otherwise => cases hpath
  · exact isPath_of_mem_fieldPaths hpath
  · exact isPath_of_mem_fieldPaths hpath
  · exact isPath_of_mem_fieldPaths hpath

theorem mem_of_firstReferences {rs : List Reference} {r : Reference} (h : r ∈ firstReferences [] rs) : r ∈ rs :=
  List.mem_of_find?_eq_some (mem_firstReferences.mp h).2

/-- What joins objects is named like an object. -/
theorem isIdent_of_junctionOf (hmain : main.isWritable = true) {part junction : String}
    (h : PathWalk.junctionOf part main = some junction) : isIdent junction = true := by
  have hknown : ∀ j ∈ Vocabulary.junctions, isIdent j.object = true := by decide
  unfold PathWalk.junctionOf at h
  split at h
  · cases h
  · split at h
    · rename_i j hfound
      cases h
      exact hknown j (List.mem_of_find?_eq_some hfound)
    · obtain ⟨l, hfound, rfl⟩ := Option.map_eq_some_iff.mp h
      have hlink := SObject.isWritable_child hmain l (List.mem_of_find?_eq_some hfound)
      exact (ChildLink.isWritable_iff.mp hlink).2.1

section Schema

variable (hcontext : context.isWritable = true)

include hcontext

theorem pathRule_suits (h : q.Sturdy) (hmain : main.isWritable = true) : Suits (pathRule q main context) := by
  intro m hm a ha
  obtain ⟨r, hr, hsome⟩ := List.mem_filterMap.mp hm
  have hpath := isPath_of_mem_references h.clauses r (List.mem_filter.mp (mem_of_firstReferences hr)).1
  split at hsome
  · cases hsome
  · split at hsome
    · cases hsome
    · rename_i message corrected hlost
      cases hsome
      -- Both kinds of errors exchange the path for the corrected one.
      have hrenames (c : String) (hc : corrected = some c) : Renames r.path c :=
        PathWalk.renames_of_lost hcontext hmain hpath (hc ▸ hlost)
      unfold pathError at ha
      split at ha
      · obtain ⟨c, hc, rfl⟩ := Option.map_eq_some_iff.mp ha
        exact hrenames c hc
      · obtain ⟨c, hc, rfl⟩ := Option.map_eq_some_iff.mp ha
        exact hrenames c hc

theorem childErrors_suits {link : Option ChildLink} {inner : InnerQuery} (h : inner.Sturdy) :
    Suits (childErrors context link inner) := by
  unfold childErrors
  split
  · rename_i child hchild
    obtain ⟨l, -, hget⟩ := Option.bind_eq_some_iff.mp hchild
    intro m hm a ha
    obtain ⟨r, hr, hsome⟩ := List.mem_filterMap.mp hm
    split at hsome
    · cases hsome
    · rename_i message corrected hlost
      cases hsome
      obtain ⟨c, rfl, rfl⟩ := Option.map_eq_some_iff.mp ha
      have hpath := isPath_of_mem_references h r (mem_of_firstReferences hr)
      exact PathWalk.renames_of_lost hcontext (Context.isWritable_get? hcontext hget) hpath hlost
  · exact suits_nil

theorem childRule_suits (h : q.Sturdy) (hmain : main.isWritable = true) : Suits (childRule q main context) := by
  apply suits_flatMap
  intro inner hinner
  obtain ⟨item, hitem, heq⟩ := List.mem_filterMap.mp hinner
  have hsturdy : inner.Sturdy := by
    cases item with
    | child q =>
      cases heq
      exact h.clauses.items _ hitem
    | field path alias? => cases heq
    | call name args alias? => cases heq
    | typeOf relationship branches otherwise => cases heq
  simp only
  split
  · exact childErrors_suits hcontext hsturdy
  · split
    · rename_i suggestion hclosest
      intro m hm a ha
      rcases List.mem_cons.mp hm with rfl | hm
      · cases ha
        obtain ⟨l, hl, rfl⟩ := List.mem_map.mp (Nearest.mem_of_closestName hclosest)
        exact (ChildLink.isWritable_iff.mp (SObject.isWritable_child hmain l hl)).1
      · exact childErrors_suits hcontext hsturdy m hm a ha
    · exact suits_unanswered _ _

/-- A joining object points to the main one by a field. -/
theorem isFieldName_of_fieldToMain (hmain : main.isWritable = true) {junction link : String}
    (h : PathWalk.fieldToMain junction main context = some link) : isFieldName link = true := by
  unfold PathWalk.fieldToMain at h
  simp only at h
  split at h
  · rename_i j hfound
    cases h
    exact fixed_names.2.2 j (List.mem_of_find?_eq_some hfound)
  · split at h
    · rename_i f hfound
      cases h
      obtain ⟨o, ho, hf⟩ := Option.bind_eq_some_iff.mp hfound
      have hfield := SObject.isWritable_field (Context.isWritable_get? hcontext ho) f (List.mem_of_find?_eq_some hf)
      exact (Field.isWritable_iff.mp hfield).1
    · obtain ⟨l, hfound, rfl⟩ := Option.map_eq_some_iff.mp h
      have hlink := SObject.isWritable_child hmain l (List.mem_of_find?_eq_some hfound)
      have hnamed := List.find?_some hfound
      rw [Bool.and_eq_true, Bool.not_eq_true'] at hnamed
      rcases (ChildLink.isWritable_iff.mp hlink).2.2 with hempty | hname
      · rw [hnamed.2] at hempty
        cases hempty
      · exact hname

theorem junctionRule_suits (h : q.Sturdy) (hmain : main.isWritable = true) :
    Suits (junctionRule q main context) := by
  intro m hm a ha
  obtain ⟨r, hr, hsome⟩ := List.mem_filterMap.mp hm
  have hpath := isPath_of_mem_references h.clauses r (List.mem_filter.mp (mem_of_firstReferences hr)).1
  obtain ⟨junction, hthrough, rfl⟩ := Option.map_eq_some_iff.mp hsome
  unfold throughJunction at hthrough
  split at hthrough
  · rename_i hdotted
    rw [isDotted_eq, decide_eq_true_eq] at hdotted
    unfold junctionError at ha
    simp only [Message.error] at ha
    split at ha
    · rename_i hcompared
      obtain ⟨link, hlink, rfl⟩ := Option.map_eq_some_iff.mp ha
      rw [Bool.and_eq_true, List.contains_iff_mem] at hcompared
      obtain ⟨c, hc, hsame⟩ := List.mem_map.mp hcompared.2
      have hfield : Orderly c.field := h.clauses.leaves _ (mem_comparisons.mp hc)
      have hproper := isProper_of_sameLower hfield hpath hsame
      have hupper : c.field.map Char.toUpper = r.path.map Char.toUpper :=
        upper_of_sameLower (isPath_of_isProper hproper) hpath (by rw [sameLower, hsame, beq_self_eq_true])
      have hends : endsReserved r.path = false := by
        rw [isProper, Bool.and_eq_true, Bool.not_eq_true'] at hproper
        rw [← endsReserved_congr hupper, hproper.2]
      obtain ⟨hname, -⟩ := Option.mem_filter_iff.mp hlink
      refine ⟨by rw [isProper, hpath, hends]; rfl, by omega, isIdent_of_junctionOf hmain hthrough, ?_,
        fixed_names.2.1⟩
      exact isProper_of_isFieldName (isFieldName_of_fieldToMain hcontext hmain hname)
    · cases ha
  · cases hthrough

/-- A value of the list takes the place of a literal. -/
theorem picklistRule_suits (h : q.Sturdy) (hmain : main.isWritable = true) :
    Suits (picklistRule q main context) := by
  apply suits_flatMap
  intro c hc
  unfold picklistErrors
  split
  · split
    · rename_i f hreached
      split
      · intro m hm a ha
        obtain ⟨literal, hliteral, rfl⟩ := List.mem_map.mp hm
        have hold := exchangeable_of_mem_literals (h.values c hc) (List.mem_filter.mp hliteral).1
        unfold valueError at ha
        simp only at ha
        split at ha
        · rename_i value hclosest
          cases ha
          have hfield := Field.isWritable_iff.mp (PathWalk.isWritable_of_walk hcontext hmain hreached)
          have hnew := hfield.2 value (Nearest.mem_of_closestName hclosest)
          exact ⟨hold, exchangeable_of_isExchangeable hnew⟩
        · cases ha
      · exact suits_nil
    · exact suits_nil
  · exact suits_nil

end Schema

theorem typeOfRule_suits (q : Query) (main : SObject) (context : Context) : Suits (typeOfRule q main context) := by
  apply suits_flatMap
  rintro ⟨relationship, branches⟩ -
  simp only
  split
  · exact suits_unanswered _ _
  · apply suits_flatMap
    intro branch _
    unfold branchErrors
    split
    · exact suits_unanswered _ _
    · split
      · exact suits_nil
      · apply suits_of_none
        intro m hm
        obtain ⟨f, -, rfl⟩ := List.mem_map.mp hm
        rfl

/-- The expression by which a selected one is to be grouped is orderly. -/
theorem groupingError_suits {item : SelectItem InnerQuery} (hlegible : item.Legible InnerLegible)
    (h : item.Sturdy InnerQuery.Sturdy) {grouped : List String} {m : Message}
    (hm : groupingError grouped item = some m) : Suits [m] := by
  intro m' hm' a ha
  rw [List.mem_singleton.mp hm'] at ha
  cases item with
  | field path alias? =>
    simp only [groupingError] at hm
    split at hm
    · cases hm
    · cases hm
      cases ha
      intro e he
      rw [List.mem_singleton.mp he]
      exact .name h
  | call name args alias? =>
    obtain ⟨hname, hargs, hfirst, -⟩ := h
    obtain ⟨-, -, hlast, -⟩ := hlegible
    simp only [groupingError] at hm
    split at hm
    · cases hm
    · cases hm
      cases ha
      intro e he
      rw [List.mem_singleton.mp he]
      unfold groupOfCall
      split
      · exact hfirst _ rfl
      · exact .call hname hargs hlast
  | child q => cases hm
  | typeOf relationship branches otherwise => cases hm

theorem aggregateRule_suits (h : q.Sturdy) : Suits (aggregateRule q) := by
  unfold aggregateRule
  split
  · apply suits_append
    · split
      · exact suits_nil
      · exact suits_unanswered _ _
    · intro m hm
      obtain ⟨item, hitem, hsome⟩ := List.mem_filterMap.mp hm
      exact groupingError_suits (h.clauses.legible.items.2 item hitem) (h.clauses.items item hitem) hsome m
        (List.mem_singleton_self m)
  · exact suits_nil

theorem semiJoinRule_suits (q : Query) (context : Context) : Suits (semiJoinRule q context) := by
  apply suits_flatMap
  intro join _
  simp only
  split
  · apply suits_append
    · split
      · exact suits_nil
      · exact suits_unanswered _ _
    · apply suits_of_none
      intro m hm
      obtain ⟨r, -, hsome⟩ := List.mem_filterMap.mp hm
      split at hsome
      · cases hsome
      · cases hsome
        rfl
  · split
    · exact suits_nil
    · exact suits_unanswered _ _

theorem literalRule_suits (q : Query) (main : Option SObject) (context : Context) :
    Suits (literalRule q main context) := by
  apply suits_flatMap
  rintro ⟨owner, c⟩ -
  apply suits_of_none
  intro m hm
  obtain ⟨literal, -, rfl⟩ := List.mem_map.mp hm
  rfl

def isLimit (n : Int) : Bool :=
  decide (0 ≤ n) && decide ((Nat.toDigits 10 n.toNat).length ≤ Decimal.digitLimit)

theorem isCount_of_isLimit {n : Int} (h : isLimit n = true) : ∃ count : Nat, n = count ∧ IsCount count := by
  rw [isLimit, Bool.and_eq_true, decide_eq_true_eq, decide_eq_true_eq] at h
  exact ⟨n.toNat, by omega, h.2⟩

def isWritable (validator : Validator) : Bool :=
  isLimit validator.usualLimit && isLimit validator.maxRows

theorem governorRule_suits {validator : Validator} (hlimits : validator.isWritable = true) (q : Query)
    (main : Option SObject) (mainName : String) : Suits (governorRule validator q main mainName) := by
  rw [isWritable, Bool.and_eq_true] at hlimits
  have hwarning (text : String) {limit : Int} (hlimit : isLimit limit = true) :
      Suits [limitWarning text limit] := by
    intro m hm a ha
    rw [List.mem_singleton.mp hm] at ha
    cases ha
    exact isCount_of_isLimit hlimit
  apply suits_append
  · apply suits_of_none
    intro m hm
    obtain ⟨c, -, rfl⟩ := List.mem_map.mp hm
    rfl
  · split
    · exact suits_nil
    · unfold limitRule
      simp only
      split
      · split
        · exact hwarning _ hlimits.2
        · exact suits_nil
      · split
        · exact suits_nil
        · exact hwarning _ hlimits.1

/-- A rule that is kept only where the query's object is described. -/
theorem suits_ofMain {main : Option SObject} {rule : Query → SObject → Context → List Message} :
    (∀ o ∈ main, Suits (rule q o context)) → Suits (match main with
      | some o => rule q o context
      | none => []) := by
  intro hrule
  cases main with
  | none => exact suits_nil
  | some o => exact hrule o rfl

/-- The corrections for a sturdy query fit where the schema and the limits can be written in a query. -/
theorem validate_suits {validator : Validator} (hlimits : validator.isWritable = true)
    (hcontext : context.isWritable = true) (h : q.Sturdy) : Suits (validator.validate q context) := by
  obtain ⟨hobject, hdescribed⟩ := mainObjectOf_suits (q := q) hcontext
  unfold validate
  generalize mainObjectOf q context = found at hobject hdescribed
  obtain ⟨main, objectErrors⟩ := found
  have hpaths := suits_ofMain fun o ho => pathRule_suits hcontext h (hdescribed o ho)
  have htypes := suits_ofMain fun o (_ : o ∈ main) => typeOfRule_suits q o context
  have hchildren := suits_ofMain fun o ho => childRule_suits hcontext h (hdescribed o ho)
  have hjunctions := suits_ofMain fun o ho => junctionRule_suits hcontext h (hdescribed o ho)
  have hvalues := suits_ofMain fun o ho => picklistRule_suits hcontext h (hdescribed o ho)
  -- The rules in their order.
  let mainName := (main.map (·.name)).getD q.object
  have hobjects := suits_append (suits_append (syntaxRules_suits h) (toolingRule_suits q mainName)) hobject
  have hrelated := suits_append (suits_append (suits_append (suits_append hobjects hpaths) htypes) hchildren)
    hjunctions
  have hwhole := suits_append (suits_append (suits_append hrelated (aggregateRule_suits h))
    (semiJoinRule_suits q context)) (literalRule_suits q main context)
  exact suits_append (suits_append hwhole hvalues) (governorRule_suits hlimits q main mainName)

end Validator

end Soql
