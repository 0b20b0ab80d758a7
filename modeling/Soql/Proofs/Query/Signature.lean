import Soql.Proofs.Query.ClauseTexts

namespace Soql.Text

def excess (s : List Char) : Int :=
  s.count '(' - s.count ')'

theorem excess_append (s t : List Char) : excess (s ++ t) = excess s + excess t := by
  simp only [excess, List.count_append]
  omega

theorem excess_opening (s : List Char) : excess ('(' :: s) = 1 + excess s := by
  have hone : excess ['('] = 1 := by decide
  rw [← hone, ← excess_append, List.singleton_append]

theorem excess_closing (s : List Char) : excess (')' :: s) = excess s - 1 := by
  have hone : excess [')'] = -1 := by decide
  have hsplit := excess_append [')'] s
  rw [hone, List.singleton_append] at hsplit
  omega

/-- Parentheses do not count where there are none. -/
theorem excess_eq_zero {s : List Char} (hopening : '(' ∉ s) (hclosing : ')' ∉ s) : excess s = 0 := by
  rw [excess, List.count_eq_zero.mpr hopening, List.count_eq_zero.mpr hclosing]
  rfl

theorem opening_mem_of_excess {s : List Char} (h : 0 < excess s) : '(' ∈ s := by
  rw [← List.count_pos_iff]
  unfold excess at h
  omega

def upToComma (s : List Char) : List Char :=
  s.takeWhile (· != ',')

theorem upToComma_of_not_mem {s : List Char} (h : ',' ∉ s) : upToComma s = s := by
  rw [upToComma, List.takeWhile_eq_self_iff]
  intro c hc
  rw [bne_iff_ne]
  rintro rfl
  exact h hc

theorem upToComma_append {s : List Char} (h : ',' ∉ s) (t : List Char) : upToComma (s ++ t) = s ++ upToComma t := by
  unfold upToComma
  rw [List.takeWhile_append_of_pos]
  intro c hc
  rw [bne_iff_ne]
  rintro rfl
  exact h hc

theorem upToComma_append_of_mem {s : List Char} (h : ',' ∈ s) (t : List Char) : upToComma (s ++ t) = upToComma s := by
  induction s with
  | nil => cases h
  | cons c s ih =>
    unfold upToComma at ih ⊢
    by_cases hc : c = ','
    · simp [hc]
    · have hrest : ',' ∈ s := (List.mem_cons.mp h).resolve_left (Ne.symm hc)
      simp [hc, ih hrest]

theorem comma_not_mem_upToComma (s : List Char) : ',' ∉ upToComma s := by
  intro h
  simpa using List.mem_takeWhile_imp h

end Soql.Text

namespace Soql

open Text Token

def called (name inside : List Char) : List Char :=
  name ++ '(' :: (inside ++ [')'])

theorem called_inj {name name' inside inside' : List Char} (h : '(' ∉ name) (h' : '(' ∉ name')
    (heq : called name inside = called name' inside') : name = name' ∧ inside = inside' := by
  have hfirst (n i : List Char) (hn : '(' ∉ n) : (called n i).takeWhile (· != '(') = n := by
    rw [called, List.takeWhile_append_of_pos]
    · simp
    · intro c hc
      rw [bne_iff_ne]
      rintro rfl
      exact hn hc
  obtain rfl : name = name' := by rw [← hfirst name inside h, heq, hfirst name' inside' h']
  exact ⟨rfl, by simpa [called] using heq⟩

/-- The name of a call that only changes how a value is shown. -/
structure IsWrapping (name : List Char) : Prop where
  word : ∀ c ∈ name, isWord c = true
  transparent : Vocabulary.transparentCalls.contains (.ofList name) = true

theorem IsWrapping.not_mem {name : List Char} (h : IsWrapping name) {c : Char} (hc : isWord c = false) :
    c ∉ name := by
  intro hmem
  rw [h.word c hmem] at hc
  cases hc

theorem IsWrapping.excess {name : List Char} (h : IsWrapping name) : excess name = 0 :=
  excess_eq_zero (h.not_mem (by decide)) (h.not_mem (by decide))

/-- A call opens one parenthesis and closes it. -/
theorem excess_called {name : List Char} (hname : excess name = 0) (inside : List Char) :
    excess (called name inside) = excess inside := by
  calc excess (called name inside)
      = excess name + (1 + (excess inside + excess [')'])) := by
        rw [called, excess_append, excess_opening, excess_append]
    _ = excess inside := by
        have hclosing : excess [')'] = -1 := by decide
        omega

/-- What is left when a call is taken off. -/
theorem unwrapped_iff {s inner : List Char} : unwrapped s = some inner ↔
    ∃ name inside, IsWrapping name ∧ s = called name inside ∧ inner = upToComma inside := by
  constructor
  · intro h
    unfold unwrapped at h
    dsimp only at h
    split at h
    · rename_i inside hinside
      split at h
      · rename_i hfine
        rw [Bool.and_eq_true, beq_iff_eq] at hfine
        obtain ⟨hlast, htransparent⟩ := hfine
        cases h
        obtain ⟨front, rfl⟩ := List.getLast?_eq_some_iff.mp hlast
        refine ⟨s.takeWhile isWord, front, ⟨fun c hc => List.mem_takeWhile_imp hc, htransparent⟩, ?_, ?_⟩
        · rw [called, ← hinside, List.takeWhile_append_dropWhile]
        · rw [List.dropLast_concat]
          rfl
      · cases h
    · cases h
  · rintro ⟨name, inside, hname, rfl, rfl⟩
    obtain ⟨htake, hdrop⟩ : (called name inside).takeWhile isWord = name ∧
        (called name inside).dropWhile isWord = '(' :: (inside ++ [')']) := by
      unfold called
      rw [List.takeWhile_append_of_pos hname.word, List.dropWhile_append_of_pos hname.word]
      have hopening : isWord '(' = false := by decide
      simp [hopening]
    have htransparent := List.contains_iff_mem.mp hname.transparent
    unfold unwrapped
    rw [htake, hdrop]
    simp [htransparent, upToComma]

theorem length_unwrapped_lt {s inner : List Char} (h : unwrapped s = some inner) : inner.length < s.length := by
  obtain ⟨name, inside, -, rfl, rfl⟩ := unwrapped_iff.mp h
  have hshorter := (List.takeWhile_sublist (fun c => c != ',') (l := inside)).length_le
  rw [called, upToComma, List.length_append, List.length_cons, List.length_append]
  omega

/-- Enough fuel takes off all calls there are. -/
theorem unwrapAll_congr {n m : Nat} {s : List Char} (hn : s.length ≤ n) (hm : s.length ≤ m) :
    unwrapAll n s = unwrapAll m s := by
  induction n generalizing m s with
  | zero =>
    obtain rfl := List.length_eq_zero_iff.mp (Nat.le_zero.mp hn)
    cases m <;> rfl
  | succ n ih =>
    cases m with
    | zero =>
      obtain rfl := List.length_eq_zero_iff.mp (Nat.le_zero.mp hm)
      rfl
    | succ m =>
      rw [unwrapAll, unwrapAll]
      cases hinner : unwrapped s with
      | none => rfl
      | some inner =>
        have hshorter := length_unwrapped_lt hinner
        exact ih (by omega) (by omega)

/-- A text without the calls around it that only change how a value is shown. -/
def stripped (s : List Char) : List Char :=
  unwrapAll s.length s

theorem stripped_some {s inner : List Char} (h : unwrapped s = some inner) : stripped s = stripped inner := by
  have hshorter := length_unwrapped_lt h
  obtain ⟨n, hn⟩ : ∃ n, s.length = n + 1 := ⟨s.length - 1, by omega⟩
  rw [stripped, hn, unwrapAll, h]
  exact unwrapAll_congr (by omega) (Nat.le_refl _)

theorem stripped_none {s : List Char} (h : unwrapped s = none) : stripped s = s := by
  unfold stripped
  cases s.length with
  | zero => rfl
  | succ n => rw [unwrapAll, h]

theorem stripped_called {name : List Char} (hname : IsWrapping name) (inside : List Char) :
    stripped (called name inside) = stripped (upToComma inside) :=
  stripped_some (unwrapped_iff.mpr ⟨name, inside, hname, rfl, rfl⟩)

/-- Without commas, taking off calls keeps how many parentheses stay open. The induction is on the length. -/
theorem excess_stripped {s : List Char} (h : ',' ∉ s) : excess (stripped s) = excess s ∧ ',' ∉ stripped s := by
  induction hn : s.length using Nat.strong_induction_on generalizing s with
  | _ n ih =>
    cases hinner : unwrapped s with
    | none =>
      rw [stripped_none hinner]
      exact ⟨rfl, h⟩
    | some inner =>
      have hshorter := length_unwrapped_lt hinner
      rw [stripped_some hinner]
      obtain ⟨name, inside, hname, rfl, rfl⟩ := unwrapped_iff.mp hinner
      have hinside : ',' ∉ inside := fun hmem => h (by simp [called, hmem])
      rw [upToComma_of_not_mem hinside] at hshorter ⊢
      obtain ⟨hexcess, hcomma⟩ := ih inside.length (hn ▸ hshorter) hinside rfl
      exact ⟨hexcess.trans (excess_called hname.excess inside).symm, hcomma⟩

def calledIn (names : List (List Char)) (s : List Char) : List Char :=
  names.foldr called s

section Wrapped

variable {names : List (List Char)} (hnames : ∀ name ∈ names, IsWrapping name) {s : List Char}

include hnames

theorem comma_mem_calledIn_iff : ',' ∈ calledIn names s ↔ ',' ∈ s := by
  induction names with
  | nil => rfl
  | cons name names ih =>
    obtain ⟨hname, hrest⟩ := List.forall_mem_cons.mp hnames
    have hfree : ',' ∉ name := hname.not_mem (by decide)
    rw [calledIn, List.foldr_cons, ← ih hrest]
    simp [called, hfree, calledIn]

/-- Calls around a text with a comma all stay open where they are cut at it. -/
theorem excess_calledIn (h : ',' ∈ s) :
    excess (upToComma (calledIn names s)) = names.length + excess (upToComma s) := by
  induction names with
  | nil => simp [calledIn]
  | cons name names ih =>
    obtain ⟨hname, hrest⟩ := List.forall_mem_cons.mp hnames
    have hinside : ',' ∈ calledIn names s := (comma_mem_calledIn_iff hrest).mpr h
    have hsplit : upToComma (calledIn (name :: names) s) = name ++ '(' :: upToComma (calledIn names s) := by
      have hopening : ',' ∉ ['('] := by decide
      calc upToComma (calledIn (name :: names) s)
          = name ++ upToComma (['('] ++ (calledIn names s ++ [')'])) := upToComma_append (hname.not_mem (by decide)) _
        _ = name ++ ('(' :: upToComma (calledIn names s ++ [')'])) := by rw [upToComma_append hopening]; rfl
        _ = name ++ '(' :: upToComma (calledIn names s) := by rw [upToComma_append_of_mem hinside]
    rw [hsplit, excess_append, hname.excess, excess_opening, ih hrest, List.length_cons]
    push_cast
    omega

theorem stripped_calledIn (h : ',' ∉ s) : stripped (calledIn names s) = stripped s := by
  induction names with
  | nil => rfl
  | cons name names ih =>
    obtain ⟨hname, hrest⟩ := List.forall_mem_cons.mp hnames
    have hinside : ',' ∉ calledIn names s := fun hmem => h ((comma_mem_calledIn_iff hrest).mp hmem)
    rw [calledIn, List.foldr_cons, stripped_called hname]
    exact (congrArg stripped (upToComma_of_not_mem hinside)).trans (ih hrest)

end Wrapped

/-- A text that is cut at a comma inside one call more opens one parenthesis more, however many calls are taken
off afterwards. -/
theorem stripped_ne_of_comma {names : List (List Char)} (hnames : ∀ name ∈ names, IsWrapping name) {s : List Char}
    (h : ',' ∈ s) : stripped (upToComma (calledIn names s)) ≠ stripped s := by
  obtain ⟨hcut, hfree⟩ := excess_stripped (comma_not_mem_upToComma (calledIn names s))
  rw [excess_calledIn hnames h] at hcut
  -- Either no call is taken off the text itself, and its comma stays, or the first one is, and then both texts
  -- are cut at the same comma, the one behind a parenthesis more than the other.
  cases hinner : unwrapped s with
  | none =>
    rw [stripped_none hinner]
    intro hsame
    rw [hsame] at hfree
    exact hfree h
  | some inner =>
    rw [stripped_some hinner]
    obtain ⟨name, inside, hname, rfl, rfl⟩ := unwrapped_iff.mp hinner
    have hinside : ',' ∈ inside := by
      have hfree : ',' ∉ name := hname.not_mem (by decide)
      simpa [called, hfree] using h
    have hone : ∀ w ∈ [name], IsWrapping w := by simpa using hname
    have houter : excess (upToComma (called name inside)) = 1 + excess (upToComma inside) := by
      simpa [calledIn] using excess_calledIn hone hinside
    intro hsame
    rw [hsame, (excess_stripped (comma_not_mem_upToComma inside)).1, houter] at hcut
    omega

/-- Calls that only change how a value is shown leave no trace just where they have no comma inside. -/
theorem stripped_calledIn_iff {name : List Char} {names : List (List Char)} (hname : IsWrapping name)
    (hnames : ∀ name ∈ names, IsWrapping name) {s : List Char} :
    stripped (calledIn (name :: names) s) = stripped s ↔ ',' ∉ s := by
  constructor
  · intro hsame hcomma
    rw [calledIn, List.foldr_cons, stripped_called hname] at hsame
    exact stripped_ne_of_comma hnames hcomma hsame
  · exact stripped_calledIn (List.forall_mem_cons.mpr ⟨hname, hnames⟩)

def normal (s : List Char) : List Char :=
  lowerChars (s.filter (!isBlank ·))

theorem toList_signature (expr : String) : (signature expr).toList = stripped (normal expr.toList) := by
  rw [signature, String.toList_ofList]
  rfl

theorem signature_eq_iff {a b : String} :
    signature a = signature b ↔ stripped (normal a.toList) = stripped (normal b.toList) := by
  rw [← String.toList_inj, toList_signature, toList_signature]

def callMarks : List Char :=
  ['(', ')', ',']

theorem divider_of_callMark {m : Char} (hm : m ∈ callMarks) : IsDivider m ∧ isBlank m = false := by
  have hall : ∀ m ∈ callMarks, IsLow m ∧ lowerRun m = [m] ∧ isCaseIgnorable m = false ∧ isCased m = false ∧
      isBlank m = false :=
    List.all_iff_forall_prop.mp (by decide +kernel)
  obtain ⟨hlow, hrun, hseen, huncased, hblank⟩ := hall m hm
  exact ⟨⟨hlow, hrun, hseen, huncased⟩, hblank⟩

section Marks

variable {m : Char} (hm : m ∈ callMarks)

include hm

theorem count_normal (s : List Char) : (normal s).count m = s.count m := by
  obtain ⟨hdivider, hblank⟩ := divider_of_callMark hm
  rw [normal, lowerChars, count_lowerAfter hdivider.low hdivider.run, List.count_filter]
  simpa using hblank

theorem mem_normal_iff {s : List Char} : m ∈ normal s ↔ m ∈ s := by
  rw [← List.count_pos_iff, count_normal hm, List.count_pos_iff]

theorem normal_append (s t : List Char) : normal (s ++ m :: t) = normal s ++ m :: normal t := by
  obtain ⟨hdivider, hblank⟩ := divider_of_callMark hm
  rw [normal, List.filter_append, List.filter_cons_of_pos (by simpa using hblank)]
  exact hdivider.lowerAfter_append false _ _

end Marks

theorem excess_normal (s : List Char) : excess (normal s) = excess s := by
  rw [excess, count_normal (by decide), count_normal (by decide)]
  rfl

theorem upToComma_normal (s : List Char) : upToComma (normal s) = normal (upToComma s) := by
  by_cases h : ',' ∈ s
  · obtain ⟨before, after, rfl, hfree⟩ := List.eq_append_cons_of_mem h
    have hfree' : ',' ∉ normal before := fun hmem => hfree ((mem_normal_iff (by decide)).mp hmem)
    have hnone (rest : List Char) : upToComma (',' :: rest) = [] := rfl
    rw [normal_append (by decide), upToComma_append hfree', upToComma_append hfree, hnone, hnone, List.append_nil,
      List.append_nil]
  · have h' : ',' ∉ normal s := fun hmem => h ((mem_normal_iff (by decide)).mp hmem)
    rw [upToComma_of_not_mem h', upToComma_of_not_mem h]

theorem normal_callText (name : String) (args : List String) : normal (callText name args).toList =
    called (normal name.toList) (normal (joined ", " args).toList) := by
  have htext : (callText name args).toList = name.toList ++ '(' :: ((joined ", " args).toList ++ [')']) := by
    simp [callText]
  rw [htext, normal_append (by decide), normal_append (by decide)]
  rfl

/-- The functions that only change how a value is shown, in any letter case. -/
def IsTransparent (name : String) : Prop :=
  lower name ∈ Vocabulary.transparentCalls

instance (name : String) : Decidable (IsTransparent name) :=
  inferInstanceAs (Decidable (_ ∈ _))

theorem IsTransparent.wrapping {name : String} (h : IsTransparent name) : IsWrapping (normal name.toList) := by
  -- A blank would stand in the name in lower case too.
  have hunblank : ∀ c ∈ name.toList, isBlank c = false := by
    have hall : ∀ w ∈ Vocabulary.transparentCalls, w.toList.all (!isBlank ·) = true := by decide
    intro c hc
    rw [← Bool.not_eq_true]
    intro hblank
    have hlower : c ∈ (lower name).toList := by
      rw [lower, String.toList_ofList]
      exact mem_lowerAfter_blank hblank false hc
    simpa [hblank] using List.all_eq_true.mp (hall _ h) c hlower
  have hname : normal name.toList = (lower name).toList := by
    rw [lower, String.toList_ofList, normal, List.filter_eq_self.mpr fun c hc => by simp [hunblank c hc]]
  rw [hname]
  refine ⟨?_, ?_⟩
  · have hall : ∀ w ∈ Vocabulary.transparentCalls, w.toList.all isWord = true := by decide
    exact List.all_eq_true.mp (hall _ h)
  · rw [String.ofList_toList]
    exact List.contains_iff_mem.mpr h

def wrappedIn (names : List String) (expr : String) : String :=
  names.foldr (fun name inside => callText name [inside]) expr

theorem normal_wrappedIn (names : List String) (expr : String) : normal (wrappedIn names expr).toList =
    calledIn (names.map fun name => normal name.toList) (normal expr.toList) := by
  induction names with
  | nil => rfl
  | cons name names ih =>
    have hinside : normal (joined ", " [wrappedIn names expr]).toList = normal (wrappedIn names expr).toList := by
      simp [joined]
    rw [wrappedIn, List.foldr_cons, normal_callText]
    exact congrArg (called _) (hinside.trans ih)

/-- Calls that only change how a value is shown are left out of the signature just where they hold no comma. -/
theorem signature_wrappedIn_iff {name : String} (hname : IsTransparent name) {names : List String}
    (hnames : ∀ name ∈ names, IsTransparent name) (expr : String) :
    signature (callText name [wrappedIn names expr]) = signature expr ↔ ',' ∉ expr.toList := by
  have hwrapping : ∀ w ∈ names.map fun name => normal name.toList, IsWrapping w := by
    intro w hw
    obtain ⟨name, hmem, rfl⟩ := List.mem_map.mp hw
    exact (hnames name hmem).wrapping
  change signature (wrappedIn (name :: names) expr) = signature expr ↔ _
  rw [signature_eq_iff, normal_wrappedIn, List.map_cons, stripped_calledIn_iff hname.wrapping hwrapping,
    mem_normal_iff (by decide)]

namespace Token

theorem covers_unmarked : Covers (· ∉ callMarks) where
  decimal := by
    have hall : ∀ m ∈ callMarks, isDecimal m = false := List.all_iff_forall_prop.mp (by decide)
    intro c hc hmark
    rw [hall c hmark] at hc
    cases hc
  ident := by
    have hall : ∀ m ∈ callMarks, isIdentRest m = false := List.all_iff_forall_prop.mp (by decide)
    intro c hc hmark
    rw [hall c hmark] at hc
    cases hc
  marks := List.all_iff_forall_prop.mp (by decide)

/-- Only marks are written with them. -/
theorem Whole.unmarked {t : Token} (ht : t.Whole) (hliteral : t.kind ≠ .literal) (hmark : t.kind ≠ .mark) :
    ∀ c ∈ t.text.toList, c ∉ callMarks :=
  ht.chars covers_unmarked (List.all_iff_forall_prop.mp (by decide)) hliteral hmark

end Token

namespace Query

/-- A comma inside parentheses stands behind more of them that open than close. The induction is on the text; the
depth is that of parentheses in front of it. -/
theorem excess_upToComma {s : List Char} {row : List Token} (h : Laid s row) (hfree : '\x27' ∉ s) {depth out : Nat}
    (hwalk : walk endsPart depth row = some out) (hcomma : ',' ∈ s) : 0 < depth + excess (upToComma s) := by
  -- By induction on the tokens, with the depth that was reached before them.
  induction h generalizing depth with
  | nil => cases hcomma
  | @space s ts hs ih =>
    have hskip : excess (upToComma (' ' :: s)) = excess (upToComma s) := by simp [upToComma, excess]
    rw [hskip]
    refine ih (fun hmem => hfree (List.mem_cons_of_mem _ hmem)) hwalk ?_
    simpa using hcomma
  | @token t s ts ht hends hs ih =>
    rw [List.mem_append, not_or] at hfree
    obtain ⟨htoken, hrest⟩ := hfree
    obtain ⟨hinner, hwalk⟩ := walk_cons.mp hwalk
    by_cases hmark : t.kind = .mark
    · obtain ⟨c, hc, rfl⟩ := ht.exists_mark hmark
      rw [String.toList_ofList, List.singleton_append] at hcomma ⊢
      rcases hc with rfl | rfl | rfl
      · have hdeep : depth ≠ 0 := fun hzero => hinner ⟨hzero, rfl⟩
        have hclosed : excess (upToComma (')' :: s)) = excess (upToComma s) - 1 := excess_closing _
        have hlater : 0 < ((depth - 1 : Nat) : Int) + excess (upToComma s) :=
          ih hrest hwalk (by simpa using hcomma)
        omega
      · -- Nothing is cut off in front of the comma, and it is no comma between arguments.
        have hdeep : depth ≠ 0 := fun hzero => hinner ⟨hzero, rfl⟩
        have hnone : excess (upToComma (',' :: s)) = 0 := rfl
        omega
      · have hopened : excess (upToComma ('(' :: s)) = 1 + excess (upToComma s) := excess_opening _
        have hlater : 0 < ((depth + 1 : Nat) : Int) + excess (upToComma s) :=
          ih hrest hwalk (by simpa using hcomma)
        omega
    · have hplain := ht.unmarked (ht.not_literal htoken) hmark
      have hfree {m : Char} (hm : m ∈ callMarks) : m ∉ t.text.toList := fun hmem => hplain m hmem hm
      have hdepth : depthPast depth t = depth := by simp [depthPast, isMark, hmark]
      rw [hdepth] at hwalk
      rw [upToComma_append (hfree (by decide)), excess_append, excess_eq_zero (hfree (by decide)) (hfree (by decide))]
      have hlater := ih hrest hwalk ((List.mem_append.mp hcomma).resolve_left (hfree (by decide)))
      omega

/-- A call that leaves no parenthesis in its signature has the signature of its first argument. -/
theorem signature_first {name first : String} {others : List String} (hname : (word name).Whole)
    (hargs : IsArguments (first :: others)) (hfree : '\x27' ∉ first.toList)
    (hbare : '(' ∉ (signature (callText name (first :: others))).toList) :
    signature first = signature (callText name (first :: others)) := by
  rw [toList_signature, normal_callText] at hbare
  rw [signature_eq_iff, normal_callText]
  cases hinner : unwrapped (called (normal name.toList) (normal (joined ", " (first :: others)).toList)) with
  | none =>
    rw [stripped_none hinner] at hbare
    exact absurd (by simp [called]) hbare
  | some inner =>
    rw [stripped_some hinner] at hbare ⊢
    obtain ⟨outer, inside, houter, heq, rfl⟩ := unwrapped_iff.mp hinner
    have hopening : '(' ∉ normal name.toList := by
      rw [mem_normal_iff (by decide)]
      exact fun hmem => hname.unmarked nofun nofun _ hmem (by decide)
    obtain rfl : inside = normal (joined ", " (first :: others)).toList :=
      (called_inj hopening (houter.not_mem (by decide)) heq).2.symm
    rw [upToComma_normal] at hbare ⊢
    -- Behind the first argument nothing remains of what is cut at a comma.
    obtain ⟨after, hafter, hnone⟩ : ∃ after, (joined ", " (first :: others)).toList = first.toList ++ after ∧
        upToComma after = [] := by
      cases others with
      | nil => exact ⟨[], by simp [joined], rfl⟩
      | cons second others =>
        refine ⟨',' :: ' ' :: (joined ", " (second :: others)).toList, ?_, rfl⟩
        simp [joined, String.intercalate_cons_cons]
    rw [hafter] at hbare ⊢
    by_cases hcomma : ',' ∈ first.toList
    · -- What is cut off inside the first argument leaves a parenthesis open.
      obtain ⟨rows, hrows, hall⟩ := hargs
      obtain ⟨row, rest, rfl, rfl, -⟩ := List.map_eq_cons_iff.mp hrows.symm
      obtain ⟨hwalk, hwhole⟩ := hall row List.mem_cons_self
      have hopen := excess_upToComma (laid_rowText hwhole) hfree hwalk hcomma
      rw [upToComma_append_of_mem hcomma] at hbare
      have hfree' : ',' ∉ normal (upToComma (rowText row).toList) := by
        rw [mem_normal_iff (by decide)]
        exact comma_not_mem_upToComma _
      refine absurd (opening_mem_of_excess ?_) hbare
      rw [(excess_stripped hfree').1, excess_normal]
      simpa using hopen
    · rw [upToComma_append hcomma, hnone, List.append_nil]

/-- Where spaces are the only blanks and no letter looks at its neighbours, a text is written in lower case before
or after its blanks are left out. -/
theorem normal_of_laid {expr : String} (h : IsLaid expr) (hfree : '\x27' ∉ expr.toList) :
    normal expr.toList = (lower expr).toList.filter (· != ' ') := by
  obtain ⟨ts, hlaid⟩ := h
  have hall := hlaid.chars covers_spaced (List.all_iff_forall_prop.mp (by decide)) hfree
  have hsigma : SigmaFree expr := fun c hc => (hall c hc).1
  rw [toList_lower hsigma, normal, lowerChars,
    lowerAfter_eq fun c hc => hsigma c (List.mem_of_mem_filter hc)]
  generalize expr.toList = s at hall
  induction s with
  | nil => rfl
  | cons c s ih =>
    obtain ⟨⟨-, hc⟩, hs⟩ := List.forall_mem_cons.mp hall
    rw [List.flatMap_cons, List.filter_append, ← ih hs]
    by_cases hblank : isBlank c = true
    · rw [List.filter_cons_of_neg (by simpa using hblank), hc hblank]
      rfl
    · have hkept : (lowerRun c).filter (· != ' ') = lowerRun c := by
        rw [List.filter_eq_self]
        intro d hd
        rw [bne_iff_ne]
        rintro rfl
        rw [mem_lowerRun_low (by decide) hd] at hblank
        exact hblank (by decide)
      rw [List.filter_cons_of_pos (by simpa using hblank), List.flatMap_cons, hkept]

/-- Texts that differ in letter case alone have one signature. -/
theorem signature_congr {a b : String} (ha : IsLaid a) (hfree : '\x27' ∉ a.toList) (hb : IsLaid b)
    (h : lower a = lower b) : signature a = signature b := by
  have hquotes (expr : String) : (lower expr).toList.count '\x27' = expr.toList.count '\x27' := by
    rw [lower, String.toList_ofList]
    exact count_lowerAfter (by decide) (by decide) false _
  have hfree' : '\x27' ∉ b.toList := by
    rw [← List.count_eq_zero, ← hquotes, ← h, hquotes, List.count_eq_zero]
    exact hfree
  rw [signature_eq_iff, normal_of_laid ha hfree, normal_of_laid hb hfree', h]

end Query

end Soql
