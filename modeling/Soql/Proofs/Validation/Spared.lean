import Soql.Proofs.Query.Sides
import Soql.Proofs.Text.Replace
import Soql.Proofs.Validation.PathErrors
import Soql.Proofs.Validation.Suits

namespace Soql.Text

def freeAfter (free : Bool) (before : List Char) : Bool :=
  before.getLast?.elim free fun c => !joinsPath c

/-- A path stands somewhere in a text, whole and ignoring case, where `free` tells whether it may stand at
the start. -/
def StandsFrom (path : List Char) (free : Bool) (s : List Char) : Prop :=
  ∃ before after, s = before ++ after ∧ pathStands path (freeAfter free before) after = true

/-- A path stands somewhere in a text, whole and ignoring case. -/
def StandsIn (path expr : String) : Prop :=
  StandsFrom path.toList true expr.toList

section Standing

variable {path new : List Char}

theorem freeAfter_cons (free : Bool) (c : Char) (before : List Char) :
    freeAfter free (c :: before) = freeAfter (!joinsPath c) before := by
  unfold freeAfter
  cases before with
  | nil => rfl
  | cons d before =>
    rw [List.getLast?_cons_cons, List.getLast?_cons]
    rfl

theorem standsFrom_nil_iff {free : Bool} : StandsFrom path free [] ↔ pathStands path free [] = true := by
  constructor
  · rintro ⟨before, after, heq, hstands⟩
    obtain ⟨rfl, rfl⟩ := List.append_eq_nil_iff.mp heq.symm
    exact hstands
  · exact fun hstands => ⟨[], [], rfl, hstands⟩

theorem standsFrom_cons_iff {free : Bool} {c : Char} {rest : List Char} : StandsFrom path free (c :: rest) ↔
    pathStands path free (c :: rest) = true ∨ StandsFrom path (!joinsPath c) rest := by
  constructor
  · rintro ⟨before, after, heq, hstands⟩
    cases before with
    | nil =>
      rw [List.nil_append] at heq
      exact .inl (heq ▸ hstands)
    | cons d before =>
      obtain ⟨rfl, rfl⟩ := List.cons.inj heq
      rw [freeAfter_cons] at hstands
      exact .inr ⟨before, after, rfl, hstands⟩
  · rintro (hstands | ⟨before, after, rfl, hstands⟩)
    · exact ⟨[], c :: rest, rfl, hstands⟩
    · refine ⟨c :: before, after, rfl, ?_⟩
      rwa [freeAfter_cons]

theorem length_le_of_pathStands {free : Bool} {s : List Char} (h : pathStands path free s = true) :
    path.length ≤ s.length := by
  rw [pathStands, Bool.and_eq_true, Bool.and_eq_true] at h
  exact length_le_of_beginsFolded h.1.2

/-- An exchange for a path that is no shorter loses no more than what the last exchange covers. -/
theorem length_le_renameFrom {a : Char} {others s : List Char} (hlength : others.length < new.length)
    {covered : Nat} (hcovered : covered ≤ s.length) (free : Bool) :
    s.length ≤ (renameFrom (a :: others) (fun _ => new) covered free s).length + covered := by
  induction s generalizing covered free with
  | nil => exact Nat.zero_le _
  | cons c s ih =>
    cases covered with
    | succ covered =>
      have hrest := ih (Nat.le_of_succ_le_succ hcovered) (!joinsPath c)
      rw [renameFrom, List.length_cons]
      omega
    | zero =>
      -- Where the path stands it is passed over, and the new one makes up for it.
      cases hstands : pathStands (a :: others) free (c :: s) with
      | true =>
        have hfits := Nat.le_of_succ_le_succ (length_le_of_pathStands hstands)
        have hrest := ih hfits (!joinsPath c)
        rw [renameFrom_stands hstands, List.length_append, List.length_cons]
        omega
      | false =>
        have hrest := ih (Nat.zero_le _) (!joinsPath c)
        rw [renameFrom_fails hstands, List.length_cons, List.length_cons]
        omega

/-- An exchange for a longer path makes a text longer in which the path stands. -/
theorem length_lt_renameFrom {a : Char} {others s : List Char} (hlength : others.length + 1 < new.length)
    {free : Bool} (h : StandsFrom (a :: others) free s) :
    s.length < (renameFrom (a :: others) (fun _ => new) 0 free s).length := by
  induction s generalizing free with
  | nil =>
    have hfits := length_le_of_pathStands (standsFrom_nil_iff.mp h)
    simp at hfits
  | cons c s ih =>
    cases hstands : pathStands (a :: others) free (c :: s) with
    | true =>
      have hfits := Nat.le_of_succ_le_succ (length_le_of_pathStands hstands)
      have hrest := @length_le_renameFrom _ a _ _ (Nat.lt_of_succ_lt hlength) _ hfits (!joinsPath c)
      rw [renameFrom_stands hstands, List.length_append, List.length_cons]
      omega
    | false =>
      rw [standsFrom_cons_iff, hstands] at h
      have hrest := ih (h.resolve_left Bool.false_ne_true)
      rw [renameFrom_fails hstands, List.length_cons, List.length_cons]
      omega

/-- Where a path stands nowhere, nothing is exchanged. -/
theorem renameFrom_of_not_standsFrom {a : Char} {others s : List Char} {free : Bool}
    {fill : List Char → List Char} (h : ¬StandsFrom (a :: others) free s) :
    renameFrom (a :: others) fill 0 free s = s := by
  induction s generalizing free with
  | nil =>
    rw [standsFrom_nil_iff, Bool.not_eq_true] at h
    rw [renameFrom, h]
    rfl
  | cons c s ih =>
    rw [standsFrom_cons_iff, not_or, Bool.not_eq_true] at h
    rw [renameFrom_fails h.1, ih h.2]

/-- A text in which a path is exchanged for a longer one stays as it is just when the path stands nowhere. -/
theorem renamePath_eq_self_iff {path new expr : String} (hne : path ≠ "") (hnew : '\\' ∉ new.toList)
    (hlength : path.toList.length < new.toList.length) : renamePath path new expr = expr ↔ ¬StandsIn path expr := by
  rw [← String.toList_inj, toList_renamePath hnew, StandsIn]
  cases hpath : path.toList with
  | nil => exact absurd (String.toList_eq_nil_iff.mp hpath) hne
  | cons a others =>
    rw [hpath, List.length_cons] at hlength
    constructor
    · intro hsame hstands
      have hlonger := length_lt_renameFrom hlength hstands
      rw [hsame] at hlonger
      exact Nat.lt_irrefl _ hlonger
    · exact renameFrom_of_not_standsFrom

theorem beginsFolded_of_upper {s : List Char} (hpath : ∀ c ∈ path, c.toNat < 128) (hs : ∀ c ∈ s, c.toNat < 128)
    (h : s.map Char.toUpper = path.map Char.toUpper) : beginsFolded path s = true := by
  induction path generalizing s with
  | nil => rfl
  | cons a path ih =>
    cases s with
    | nil => cases h
    | cons b s =>
      obtain ⟨hhead, htail⟩ := List.cons.inj h
      have hfold {c : Char} (hc : c.toNat < 128) : fold c = c.toUpper.toLower := by
        have hall := Token.of_ascii (p := fun c => fold c == c.toUpper.toLower) (by decide) hc
        exact eq_of_beq hall
      have hsame : sameFolded a b = true := by
        rw [sameFolded, hfold (hpath a List.mem_cons_self), hfold (hs b List.mem_cons_self), hhead]
        simp
      rw [beginsFolded, hsame, ih (fun c hc => hpath c (List.mem_cons_of_mem a hc))
        (fun c hc => hs c (List.mem_cons_of_mem b hc)) htail]
      rfl

/-- Among paths a path stands just in itself, in any letter case. -/
theorem standsIn_path_iff {path w : String} (hpath : isPath path = true) (hw : isPath w = true) :
    StandsIn path w ↔ w.map Char.toUpper = path.map Char.toUpper := by
  have hchars := (pathText_of_isPath hw).chars
  rw [← String.toList_inj, String.toList_map, String.toList_map, StandsIn]
  constructor
  · rintro ⟨before, after, heq, hstands⟩
    rw [heq] at hchars ⊢
    rw [pathStands, Bool.and_eq_true, Bool.and_eq_true] at hstands
    obtain ⟨⟨hfree, hbegins⟩, hends⟩ := hstands
    -- Every character of a path joins it to what stands next to it.
    have hjoins (c : Char) (hc : c ∈ before ++ after) : joinsPath c = true := joinsPath_of_pathChar (hchars c hc)
    have hnone : before = [] := by
      rw [← List.getLast?_eq_none_iff]
      cases hlast : before.getLast? with
      | none => rfl
      | some c =>
        have hc := hjoins c (List.mem_append_left _ (List.mem_of_getLast? hlast))
        simp [freeAfter, hlast, hc] at hfree
    have hdrop : after.drop path.toList.length = [] := by
      cases hrest : after.drop path.toList.length with
      | nil => rfl
      | cons c rest =>
        have hmem : c ∈ after := List.mem_of_mem_drop (hrest ▸ List.mem_cons_self)
        simp [hrest, hjoins c (List.mem_append_right _ hmem)] at hends
    have hlength := Nat.le_antisymm (List.drop_eq_nil_iff.mp hdrop) (length_le_of_beginsFolded hbegins)
    rw [hnone, List.nil_append] at hchars ⊢
    exact upper_of_beginsFolded (pathText_of_isPath hpath).chars hchars hbegins hlength
  · intro hupper
    have hlength := congrArg List.length hupper
    rw [List.length_map, List.length_map] at hlength
    refine ⟨[], w.toList, rfl, ?_⟩
    rw [pathStands, beginsFolded_of_upper (toNat_lt_of_isPath hpath) (toNat_lt_of_isPath hw) hupper, ← hlength,
      List.drop_length]
    rfl

end Standing

/-- A path is as long as its parts with a point in front of each, but for the first point. -/
theorem length_joined_point {segs : List String} (hne : segs ≠ []) :
    (joined "." segs).toList.length + 1 = (segs.flatMap fun s => '.' :: s.toList).length := by
  obtain ⟨first, others, rfl⟩ := List.exists_cons_of_ne_nil hne
  rw [toList_joined_point, List.flatMap_map, List.flatMap_cons, List.cons_append, List.length_cons]

theorem length_le_lowerAfter (cased : Bool) (s : List Char) : s.length ≤ (lowerAfter cased s).length := by
  induction s generalizing cased with
  | nil => exact Nat.zero_le _
  | cons c s ih =>
    unfold lowerAfter lowerRun
    dsimp only
    rw [List.length_append, List.length_cons]
    have hrest := ih (if isCaseIgnorable c then cased else isCased c)
    split
    · rw [List.length_singleton]
      omega
    · split
      · rw [List.length_cons, List.length_singleton]
        omega
      · rw [List.length_singleton]
        omega

end Soql.Text

namespace Soql.Validator

open Text Soql.Action

/-- A comparison whose value holds a literal of a field as it is written. -/
def HoldsLiteral (field literal : String) : Leaf InnerQuery → Prop
  | .compare c => sameLower c.field field = true ∧ asLiteral literal <:+: c.value.toList
  | .semiJoin _ => False

/-- The condition with another field that a correction makes of it. -/
theorem withField_eq_self_iff {κ : Type} (l : Leaf κ) (field : String) : l.withField field = l ↔ field = l.field := by
  cases l with
  | compare c =>
    rw [Leaf.withField, Leaf.compare.injEq, Leaf.field]
    exact ⟨fun h => congrArg Comparison.field h, fun h => by rw [h]⟩
  | semiJoin j =>
    rw [Leaf.withField, Leaf.semiJoin.injEq, Leaf.field]
    exact ⟨fun h => congrArg SemiJoin.field h, fun h => by rw [h]⟩

theorem withField_twice {κ : Type} (l : Leaf κ) (field other : String) :
    (l.withField field).withField other = l.withField other := by
  cases l <;> rfl

/-- An exchange of literals spares just the conditions that do not hold the old one. -/
theorem relabel_eq_self_iff {field old new : String} (hne : old ≠ new) (l : Leaf InnerQuery) :
    relabel field old new l = l ↔ ¬HoldsLiteral field old l := by
  cases l with
  | semiJoin j => exact iff_of_true rfl not_false
  | compare c =>
    rw [relabel, HoldsLiteral]
    split
    · rename_i hfield
      have hold : asLiteral old ≠ [] := by simp [asLiteral]
      have hliterals : asLiteral old ≠ asLiteral new := fun h => hne (asLiteral_injective h)
      rw [Leaf.compare.injEq, hfield, eq_self_iff_true, true_and, ← replaceAll_eq_self_iff hold hliterals]
      constructor
      · intro h
        have hvalue := congrArg (fun c => c.value.toList) h
        rwa [String.toList_ofList] at hvalue
      · intro h
        rw [h, String.ofList_toList]
    · rename_i hfield
      exact iff_of_true rfl fun h => hfield h.1

/-- The name of the record behind an id is longer than the name of the id. -/
theorem length_lt_toName {field relationship : String}
    (hlookup : Vocabulary.idRelationships.lookup (lower (lastSegment field)) = some relationship) :
    field.toList.length < (joined "." ((segments field).dropLast ++ [relationship, "Name"])).toList.length := by
  have hpairs : ∀ pair ∈ Vocabulary.idRelationships, pair.1.toList.length < pair.2.toList.length + 5 := by decide
  have hpair := hpairs _ (mem_of_lookup hlookup)
  have hlast : (lastSegment field).toList.length ≤ (lower (lastSegment field)).toList.length := by
    rw [lower, String.toList_ofList]
    exact length_le_lowerAfter false _
  have hne : segments field ≠ [] := by
    rw [segments, splitAt]
    simpa using pieces_ne_nil (· == '.') field.toList
  have hsplit : (segments field).dropLast ++ [lastSegment field] = segments field := by
    rw [lastSegment, List.getLastD_eq_getLast?, List.getLast?_eq_some_getLast hne]
    exact List.dropLast_append_getLast hne
  have hfield := length_joined_point hne
  rw [joined_segments, ← hsplit, List.flatMap_append, List.length_append] at hfield
  have hnew := @length_joined_point ((segments field).dropLast ++ [relationship, "Name"]) (by simp)
  rw [List.flatMap_append, List.length_append] at hnew
  have hname : "Name".toList.length = 4 := rfl
  simp only [List.flatMap_cons, List.flatMap_nil, List.append_nil, List.length_append, List.length_cons, hname]
    at hfield hnew
  simp only at hpair
  omega

theorem toName_plain {field relationship : String} (h : '\\' ∉ field.toList)
    (hlookup : Vocabulary.idRelationships.lookup (lower (lastSegment field)) = some relationship) :
    '\\' ∉ (joined "." ((segments field).dropLast ++ [relationship, "Name"])).toList := by
  apply not_mem_joined (by decide)
  intro s hs
  rw [List.mem_append, List.mem_cons, List.mem_singleton] at hs
  rcases hs with hs | rfl | rfl
  · exact not_mem_segments h (List.dropLast_subset _ hs)
  · have hident := (idRelationships_plain _ (mem_of_lookup hlookup)).2
    intro hmem
    exact absurd (identRest_of_isIdent hident _ hmem) (by decide)
  · decide

theorem covers_plain : Token.Covers (· ≠ '\\') where
  decimal := by
    rintro c hc rfl
    exact absurd hc (by decide)
  ident := by
    rintro c hc rfl
    exact absurd hc (by decide)
  marks := by simp

/-- The left side of a condition that names a record id is no call, so that it holds no literal. -/
theorem isSide_plain {field relationship : String} (h : IsSide field)
    (hlookup : Vocabulary.idRelationships.lookup (lower (lastSegment field)) = some relationship) :
    '\\' ∉ field.toList := by
  rcases h with hwhole | ⟨name, args, rfl⟩
  · intro hmem
    exact hwhole.chars covers_plain (by simp) nofun nofun _ hmem rfl
  · obtain ⟨front, hfront⟩ := closing_mem_callText name args
    have hclosing := closing_mem_lower (mem_lastSegment hfront (by decide))
    exact absurd hclosing (idRelationships_plain _ (mem_of_lookup hlookup)).1

variable {q : Query} {main : SObject} {context : Context} {c : Comparison} {m : Message} {a : Action}

/-- A name that is compared like an id is filtered in its place. -/
theorem action_of_likeIdError (h : likeIdError c = some m) (ha : a ∈ m.action) :
    ∃ relationship, Vocabulary.idRelationships.lookup (lower (lastSegment c.field)) = some relationship ∧
      a = .swapField c.field (joined "." ((segments c.field).dropLast ++ [relationship, "Name"])) [.filter] := by
  simp only [likeIdError] at h
  split at h
  · cases h
  · split at h
    · cases h
    · split at h
      · rename_i relationship hlookup
        cases h
        cases ha
        exact ⟨relationship, hlookup, rfl⟩
      · cases h
        cases ha

/-- A value of the list takes the place of a literal that is none. -/
theorem action_of_picklistErrors (h : m ∈ picklistErrors main context c) (ha : a ∈ m.action) :
    ∃ literal value, literal ∈ c.literals ∧ literal ≠ value ∧ a = .replaceLiteral c.field literal value := by
  unfold picklistErrors at h
  split at h
  · split at h
    · rename_i f _
      split at h
      · obtain ⟨literal, hliteral, rfl⟩ := List.mem_map.mp h
        obtain ⟨hmem, hinvalid⟩ := List.mem_filter.mp hliteral
        unfold valueError at ha
        simp only at ha
        split at ha
        · rename_i value hclosest
          cases ha
          refine ⟨literal, value, hmem, ?_, rfl⟩
          rintro rfl
          have hallowed := List.mem_map_of_mem (f := lower) (Nearest.mem_of_closestName hclosest)
          simp [hallowed] at hinvalid
        · cases ha
      · cases h
    · cases h
  · cases h

theorem swapField_filter (old new : String) : ((swapField old new [.filter]).apply q).filter =
    q.filter.map (·.mapLeaves fun l => l.withField (renamePath old new l.field)) :=
  rfl

theorem mem_validate_of_likeIdError (validator : Validator) (hc : c ∈ q.comparisons) (h : likeIdError c = some m) :
    m ∈ validator.validate q context := by
  have hrule : m ∈ likeIdRule q := List.mem_filterMap.mpr ⟨c, hc, h⟩
  simp [validate, syntaxRules, hrule]

theorem mem_validate_of_picklistErrors (validator : Validator) (hmain : (mainObjectOf q context).1 = some main)
    (hc : c ∈ q.comparisons) (h : m ∈ picklistErrors main context c) : m ∈ validator.validate q context := by
  have hrule : m ∈ picklistRule q main context := List.mem_flatMap.mpr ⟨c, hc, h⟩
  simp [validate, hmain, hrule]

/-- What the corrections of single comparisons do to a whole filter. A name in place of an id changes just the
conditions, comparisons and semi-joins alike, in whose left side the field stands; a value in place of another
one changes just the comparisons of the same field that hold the old literal as it is written. Nothing but the
left side of a condition, or the value of a comparison, changes. A backslash in the field would be read as
part of a template, and in a query that is parsed there is none. -/
theorem spared_iff (validator : Validator) (q : Query) (context : Context) :
    (∀ c ∈ q.comparisons, ∀ m, likeIdError c = some m → m ∈ validator.validate q context ∧
      ∀ a ∈ m.action, ('\\' ∉ c.field.toList → perform q a = .ok (a.apply q) ∧
        ∃ change, (a.apply q).filter = q.filter.map (·.mapLeaves change) ∧
          ∀ l, (change l).withField l.field = l ∧ (change l = l ↔ ¬StandsIn c.field l.field) ∧
            (isPath c.field = true → isPath l.field = true →
              (change l = l ↔ l.field.map Char.toUpper ≠ c.field.map Char.toUpper))) ∧
        ∀ text, Query.parse text = .ok q → '\\' ∉ c.field.toList) ∧
    ∀ main, (mainObjectOf q context).1 = some main →
      ∀ c ∈ q.comparisons, ∀ m ∈ picklistErrors main context c, m ∈ validator.validate q context ∧
        ∀ a ∈ m.action, perform q a = .ok (a.apply q) ∧ ∃ literal ∈ c.literals, ∃ change,
          (a.apply q).filter = q.filter.map (·.mapLeaves change) ∧
          (∀ other, ∃ value, change (.compare other) = .compare { other with value }) ∧
          ∀ l, change l = l ↔ ¬HoldsLiteral c.field literal l := by
  constructor
  · intro c hc m hm
    refine ⟨mem_validate_of_likeIdError validator hc hm, ?_⟩
    intro a ha
    obtain ⟨relationship, hlookup, rfl⟩ := action_of_likeIdError hm ha
    refine ⟨?_, fun text hparse => isSide_plain (Query.parse_sides hparse _ (mem_comparisons.mp hc)) hlookup⟩
    intro hplain
    -- A path that is exchanged is not empty, and the new one is longer.
    have hnew := toName_plain hplain hlookup
    have hlength := length_lt_toName hlookup
    have hne : c.field ≠ "" := by
      intro hempty
      rw [hempty] at hlookup
      cases hlookup
    refine ⟨perform_plain ?_ q, _, swapField_filter _ _, ?_⟩
    · rintro _ ⟨⟩
      exact hnew
    intro l
    have hkept (l : Leaf InnerQuery) : l.withField (renamePath c.field
        (joined "." ((segments c.field).dropLast ++ [relationship, "Name"])) l.field) = l ↔
          ¬StandsIn c.field l.field :=
      (withField_eq_self_iff l _).trans (renamePath_eq_self_iff hne hnew hlength)
    refine ⟨?_, hkept l, fun hpath hl => (hkept l).trans (not_congr (standsIn_path_iff hpath hl))⟩
    rw [withField_twice, withField_eq_self_iff]
  · intro main hmain c hc m hm
    refine ⟨mem_validate_of_picklistErrors validator hmain hc hm, ?_⟩
    intro a ha
    obtain ⟨literal, value, hliteral, hne, rfl⟩ := action_of_picklistErrors hm ha
    refine ⟨rfl, literal, hliteral, relabel c.field literal value, rfl, ?_, relabel_eq_self_iff hne⟩
    -- Of a comparison only the value is changed, and a semi-join stays.
    intro other
    rw [relabel]
    split
    · exact ⟨_, rfl⟩
    · exact ⟨other.value, rfl⟩

def mistaken : String :=
  "SELECT Id FROM Account WHERE OwnerId LIKE 'Jane%' AND Rating = 'Hott' AND Name = 'Acme' LIMIT 5"

/-- The corrections of the owner and of the rating spare the name. -/
theorem spared_iff_mistaken : ∃ q, Query.parse mistaken = .ok q ∧
    ∃ name ∈ validate {} q owned, ∃ value ∈ validate {} q owned,
      (∀ a ∈ name.action, .compare ⟨"Name", .equal, "'Acme'"⟩ ∈ (a.apply q).leaves) ∧
      ∀ a ∈ value.action, .compare ⟨"Name", .equal, "'Acme'"⟩ ∈ (a.apply q).leaves := by
  obtain ⟨q, hq, hfine⟩ := Query.exists_ok_of_any (r := Query.parse mistaken)
    (p := fun q => (mainObjectOf q owned).1 == some Sample.account &&
      q.leaves == [.compare ⟨"OwnerId", .like, "'Jane%'"⟩, .compare ⟨"Rating", .equal, "'Hott'"⟩,
        .compare ⟨"Name", .equal, "'Acme'"⟩]) (by decide +kernel)
  rw [Bool.and_eq_true, beq_iff_eq, beq_iff_eq] at hfine
  obtain ⟨hmain, hleaves⟩ := hfine
  have hcomparison {c : Comparison} (hc : .compare c ∈ q.leaves) : c ∈ q.comparisons := mem_comparisons.mpr hc
  have hname : .compare ⟨"Name", .equal, "'Acme'"⟩ ∈ q.leaves := by simp [hleaves]
  -- A spared condition is among those of the corrected query.
  have hmem {l : Leaf InnerQuery} (hl : l ∈ q.leaves) {q' : Query} {change : Leaf InnerQuery → Leaf InnerQuery}
      (hfilter : q'.filter = q.filter.map (·.mapLeaves change)) (hkept : change l = l) : l ∈ q'.leaves := by
    have hall : q'.leaves = q.leaves.map change := by
      rw [← leaves_mapFilter]
      unfold QueryOf.leaves QueryOf.mapFilter
      rw [hfilter]
    rw [hall]
    exact List.mem_map.mpr ⟨l, hl, hkept⟩
  obtain ⟨hids, hvalues⟩ := spared_iff {} q owned
  obtain ⟨m, hm⟩ : ∃ m, likeIdError ⟨"OwnerId", .like, "'Jane%'"⟩ = some m :=
    Option.isSome_iff_exists.mp (by decide +kernel)
  obtain ⟨m', hm'⟩ : ∃ m, m ∈ picklistErrors Sample.account owned ⟨"Rating", .equal, "'Hott'"⟩ :=
    List.exists_mem_of_ne_nil _ (by decide +kernel)
  obtain ⟨hreported, hid⟩ := hids _ (hcomparison (by simp [hleaves])) m hm
  obtain ⟨hreported', hvalue⟩ := hvalues _ hmain _ (hcomparison (by simp [hleaves])) m' hm'
  refine ⟨q, hq, m, hreported, m', hreported', ?_, ?_⟩
  · intro a ha
    obtain ⟨hmade, hplain⟩ := hid a ha
    obtain ⟨-, change, hfilter, hchange⟩ := hmade (hplain mistaken hq)
    exact hmem hname hfilter (((hchange _).2.2 (by decide) (by decide)).mpr (by decide +kernel))
  · intro a ha
    obtain ⟨-, literal, -, change, hfilter, -, hchange⟩ := hvalue a ha
    refine hmem hname hfilter ((hchange _).mpr ?_)
    rintro ⟨hfield, -⟩
    exact absurd hfield (by decide)

def ownedTwice : String :=
  "SELECT Id FROM Account WHERE OwnerId LIKE 'Jane%' AND OwnerId IN (SELECT Id FROM User WHERE Name = 'Joe') LIMIT 5"

def joinOfOwners : SemiJoin InnerQuery where
  field := "OwnerId"
  query := {
    object := "User"
    items := [.field "Id" none]
    filter := some (.leaf (.compare ⟨"Name", .equal, "'Joe'"⟩)) }

/-- The semi-join on the same id is not reported, and the correction makes one on a name of it, which passes
all rules. -/
theorem semiJoin_renamed : ∃ q, Query.parse ownedTwice = .ok q ∧
    ∃ m ∈ validate {} q owned, likeIdError ⟨"OwnerId", .like, "'Jane%'"⟩ = some m ∧ ∃ a ∈ m.action,
      .semiJoin joinOfOwners ∈ q.leaves ∧ .semiJoin joinOfOwners ∉ (a.apply q).leaves ∧
        .semiJoin { joinOfOwners with field := "Owner.Name" } ∈ (a.apply q).leaves ∧
        Message.errors (validate {} (a.apply q) owned) = [] := by
  obtain ⟨m, hm⟩ : ∃ m, likeIdError ⟨"OwnerId", .like, "'Jane%'"⟩ = some m :=
    Option.isSome_iff_exists.mp (by decide +kernel)
  have haction : (likeIdError ⟨"OwnerId", .like, "'Jane%'"⟩).bind (·.action) =
      some (.swapField "OwnerId" "Owner.Name" [.filter]) := by decide +kernel
  rw [hm, Option.bind_some] at haction
  obtain ⟨q, hq, hfine⟩ := Query.exists_ok_of_any (r := Query.parse ownedTwice)
    (p := fun q => q.leaves == [.compare ⟨"OwnerId", .like, "'Jane%'"⟩, .semiJoin joinOfOwners] &&
      Message.errors (validate {} ((Action.swapField "OwnerId" "Owner.Name" [.filter]).apply q) owned) == [])
    (by decide +kernel)
  rw [Bool.and_eq_true, beq_iff_eq, beq_iff_eq] at hfine
  obtain ⟨hleaves, hclean⟩ := hfine
  have hreported : m ∈ validate {} q owned :=
    mem_validate_of_likeIdError {} (mem_comparisons.mpr (by simp [hleaves])) hm
  have hafter : ((Action.swapField "OwnerId" "Owner.Name" [.filter]).apply q).leaves =
      [.compare ⟨"Owner.Name", .like, "'Jane%'"⟩, .semiJoin { joinOfOwners with field := "Owner.Name" }] := by
    have hmapped : ((Action.swapField "OwnerId" "Owner.Name" [.filter]).apply q).leaves =
        q.leaves.map fun l => l.withField (renamePath "OwnerId" "Owner.Name" l.field) :=
      leaves_mapFilter _ q
    rw [hmapped, hleaves]
    decide +kernel
  refine ⟨q, hq, m, hreported, hm, _, haction, by simp [hleaves], ?_, by simp [hafter], hclean⟩
  rw [hafter]
  decide +kernel

end Soql.Validator
