import Soql.Proofs.Repair.Run

namespace Soql.Repair

variable {σ : Type}

def Event.number : Event → Option Int
  | .pass number .. => some number
  | .limit _ => none

def Event.corrected : Event → Option (List String)
  | .pass _ _ _ actions _ _ => some actions
  | .limit _ => none

def Event.text : Event → String
  | .pass _ _ _ _ query _ => query
  | .limit query => query

def lasting (events : List Event) : List Event :=
  events.filter (!·.undone)

theorem lasting_concat {events : List Event} {e : Event} (h : e.undone = false) :
    lasting (events ++ [e]) = lasting events ++ [e] := by
  rw [lasting, List.filter_append, List.filter_cons_of_pos (by simp [h]), List.filter_nil]
  rfl

theorem lasting_undone {events : List Event} {e : Event} (h : e.undone = true) :
    lasting (events ++ [e]) = lasting events := by
  rw [lasting, List.filter_append, List.filter_cons_of_neg (by simp [h]), List.filter_nil,
    List.append_nil]
  rfl

structure Answer where
  query : Query
  messages : List Message

def Answer.improved (a : Answer) (q : Query) : Query :=
  Action.applyAll q (wantedActions a.messages)

def Answer.described (a : Answer) : List String :=
  (wantedActions a.messages).map Action.describe

def replay (q : Query) (answers : List Answer) : Query :=
  answers.foldl (fun q a => a.improved q) q

theorem replay_concat (q : Query) (answers : List Answer) (a : Answer) :
    replay q (answers ++ [a]) = a.improved (replay q answers) := by
  simp only [replay, List.foldl_append, List.foldl_cons, List.foldl_nil]

def Follows (q : Query) (answers : List Answer) : Prop :=
  ∀ before a after, answers = before ++ a :: after → a.query = replay q before

theorem Follows.nil (q : Query) : Follows q [] := by
  intro before a after hsplit
  exact absurd hsplit (by simp)

theorem Follows.concat {q : Query} {answers : List Answer} (h : Follows q answers) {a : Answer}
    (ha : a.query = replay q answers) : Follows q (answers ++ [a]) := by
  intro before b after hsplit
  -- The answer in question is the last one, or it was there before.
  rcases List.eq_nil_or_concat after with rfl | ⟨others, last, rfl⟩
  · obtain ⟨rfl, hlast⟩ := List.append_inj' hsplit rfl
    obtain rfl := List.singleton_inj.mp hlast
    exact ha
  · have hcut : answers ++ [a] = (before ++ b :: others) ++ [last] := by simpa using hsplit
    exact h before b others (List.append_inj' hcut rfl).1

def noted (check : Query → StateM σ (List Message)) (q : Query) :
    StateM (σ × List Answer) (List Message) :=
  fun x => (((check q).run x.1).1, ((check q).run x.1).2, x.2 ++ [⟨q, ((check q).run x.1).1⟩])

theorem noted_projects (check : Query → StateM σ (List Message)) (q : Query) :
    Projects Prod.fst (noted check q) (check q) :=
  fun _ => rfl

theorem noted_answers {check : Query → StateM σ (List Message)} {q : Query}
    {x y : σ × List Answer} {messages : List Message}
    (h : (noted check q).run x = (messages, y)) : y.2 = x.2 ++ [⟨q, messages⟩] := by
  cases h
  rfl

def numbered (first : Int) (count : Nat) : List Int :=
  (List.range count).map fun (i : Nat) => first + i

theorem numbered_succ (first : Int) (count : Nat) :
    numbered first (count + 1) = numbered first count ++ [first + count] := by
  simp only [numbered, List.range_succ, List.map_append, List.map_singleton]

/-- The record of some passes tells what they did, given the answers that they followed. -/
structure Told (q : Query) (used : Int) (answers : List Answer) (p : Progress) : Prop where
  passes : p.passes = used + answers.length
  numbers : p.events.filterMap Event.number = numbered (used + 1) answers.length
  lasting : lasting p.events = p.events
  limits : ∀ query, Event.limit query ∉ p.events
  corrected : p.events.filterMap Event.corrected = answers.map Answer.described
  corrections : p.corrections = (answers.map Answer.described).flatten
  query : p.query = replay q answers
  text : p.query.render = (p.events.getLast?.map Event.text).getD q.render

section

variable {q : Query} {used : Int} {answers : List Answer} {p : Progress}

theorem Told.start (q : Query) (used : Int) (messages : List Message) :
    Told q used [] { query := q, messages, passes := used } := by
  refine ⟨?_, rfl, rfl, fun query => List.not_mem_nil, rfl, rfl, rfl, rfl⟩
  exact (Int.add_zero used).symm

theorem Told.numbers_record (h : Told q used answers p) (messages : List Message) :
    (p.events ++ [p.record messages]).filterMap Event.number =
      numbered (used + 1) (answers.length + 1) := by
  rw [List.filterMap_append, h.numbers, numbered_succ]
  simp only [Progress.record, h.passes, List.filterMap_cons, Event.number, List.filterMap_nil,
    Int.add_right_comm]

theorem Told.limits_record (h : Told q used answers p) (messages : List Message) (query : String) :
    Event.limit query ∉ p.events ++ [p.record messages] := by
  intro hquery
  rcases List.mem_append.mp hquery with hquery | hquery
  · exact h.limits query hquery
  · cases List.mem_singleton.mp hquery

theorem Told.keep (h : Told q used answers p) {messages : List Message}
    (hkept : errorCount messages ≤ errorCount p.messages) :
    Told q used (answers ++ [⟨p.query, p.messages⟩]) (p.keep messages) := by
  have hlength : (answers ++ [(⟨p.query, p.messages⟩ : Answer)]).length = answers.length + 1 :=
    List.length_append
  refine ⟨?_, ?_, ?_, h.limits_record messages, ?_, ?_, ?_, ?_⟩
  · change p.passes + 1 = _
    rw [hlength, h.passes]
    omega
  · rw [hlength]
    exact h.numbers_record messages
  · change Repair.lasting (p.events ++ [p.record messages]) = p.events ++ [p.record messages]
    have hnot : (p.record messages).undone = false := decide_eq_false (Nat.not_lt_of_le hkept)
    rw [lasting_concat hnot, h.lasting]
  · change (p.events ++ [p.record messages]).filterMap Event.corrected = _
    rw [List.filterMap_append, h.corrected, List.map_append]
    rfl
  · change p.corrections ++ p.described = _
    rw [h.corrections, List.map_append, List.flatten_append, List.map_singleton,
      List.flatten_singleton]
    rfl
  · rw [replay_concat, ← h.query]
    rfl
  · change p.candidate.render = ((p.events ++ [p.record messages]).getLast?.map Event.text).getD _
    rw [List.getLast?_concat]
    rfl

end

structure Retraced (q : Query) (used : Int) (x : Point (σ × List Answer)) (answers : List Answer) :
    Prop where
  told : Told q used answers x.progress
  answers : x.state.2 = answers ++ [⟨x.progress.query, x.progress.messages⟩]
  follows : Follows q x.state.2

section

variable {check : Query → StateM σ (List Message)} {q : Query} {used : Int}
  {x y : Point (σ × List Answer)} {answers : List Answer}

theorem Retraced.start (q : Query) (used : Int) (left : Nat) (messages : List Message) (s : σ) :
    Retraced q used ⟨left, { query := q, messages, passes := used }, s, [⟨q, messages⟩]⟩ [] :=
  ⟨Told.start q used messages, rfl, (Follows.nil q).concat rfl⟩

theorem Retraced.advance (h : Retraced q used x answers) (hxy : Advances (noted check) x y) :
    Retraced q used y (answers ++ [⟨x.progress.query, x.progress.messages⟩]) := by
  cases hxy with
  | @pass left p s s' messages repairable made checked written kept =>
    have hnoted : s'.2 = s.2 ++ [⟨p.candidate, messages⟩] := noted_answers checked
    have htold := h.told.keep kept
    refine ⟨htold, ?_, ?_⟩
    · change s'.2 = _
      rw [hnoted, show s.2 = _ from h.answers]
      rfl
    · change Follows q s'.2
      rw [hnoted]
      apply h.follows.concat
      rw [show s.2 = _ from h.answers]
      exact htold.query

theorem Retraced.path (h : Retraced q used x answers)
    (hxy : Relation.ReflTransGen (Advances (noted check)) x y) :
    ∃ answers, Retraced q used y answers := by
  induction hxy with
  | refl => exact ⟨answers, h⟩
  | tail _ hstep ih =>
    obtain ⟨answers, h⟩ := ih
    exact ⟨_, h.advance hstep⟩

end

def withLimit (limit : Option Int) (q : Query) : Query :=
  match limit with
  | none => q
  | some n => (Action.applyLimit n).apply q

/-- The record of a run is faithful, given the answers that its lasting passes followed, the answer
that it ended with, and the limit that it added. -/
structure Faithful (q : Query) (used : Int) (answers : List Answer) (final : Answer)
    (limit : Option Int) (o : Outcome) : Prop where
  numbers : ∃ count, o.events.filterMap Event.number = numbered (used + 1) count
  corrected : (lasting o.events).filterMap Event.corrected = answers.map Answer.described
  corrections : o.corrections = ((lasting o.events).filterMap Event.corrected).flatten ++
    (limit.map fun n => (Action.applyLimit n).describe).toList
  limited : limit.isSome ↔ ∃ query, Event.limit query ∈ o.events
  asked : ∀ n ∈ limit, ((limitWarnings final.messages).map (·.action)).head? =
    some (some (.applyLimit n))
  text : o.query.render = ((lasting o.events).getLast?.map Event.text).getD q.render
  follows : Follows q (answers ++ [final])
  query : o.query = withLimit limit (replay q answers)

/-- A limit that is asked for is the correction of the warning that asks. -/
theorem exists_limit_of_asked {messages : List Message} {action : Action}
    (h : some action ∈ ((limitWarnings messages).map (·.action)).head?) :
    ∃ n, action = .applyLimit n := by
  obtain ⟨m, hm, haction⟩ := List.mem_map.mp (List.mem_of_mem_head? h)
  have hasks := (List.mem_filter.mp hm).2
  rw [haction] at hasks
  cases action with
  | applyLimit n => exact ⟨n, rfl⟩
  | _ => simp at hasks

section

variable {check : Query → StateM σ (List Message)} {q : Query} {used : Int}
  {x : Point (σ × List Answer)} {answers : List Answer}

theorem Retraced.followed (h : Retraced q used x answers) :
    Follows q (answers ++ [⟨x.progress.query, x.progress.messages⟩]) :=
  h.answers ▸ h.follows

/-- Where no limit was added, the record is that of the passes that last. -/
theorem Retraced.unlimited (h : Retraced q used x answers) {o : Outcome}
    (hquery : o.query = x.progress.query) (hcorrections : o.corrections = x.progress.corrections)
    (hlasting : lasting o.events = x.progress.events) {count : Nat}
    (hnumbers : o.events.filterMap Event.number = numbered (used + 1) count)
    (hlimits : ∀ query, Event.limit query ∉ o.events) :
    Faithful q used answers ⟨x.progress.query, x.progress.messages⟩ none o := by
  refine ⟨⟨count, hnumbers⟩, ?_, ?_, ?_, ?_, ?_, h.followed, hquery.trans h.told.query⟩
  · rw [hlasting]
    exact h.told.corrected
  · rw [hlasting, h.told.corrected, Option.map_none, Option.toList_none, List.append_nil, hcorrections]
    exact h.told.corrections
  · constructor
    · intro hsome
      cases hsome
    · rintro ⟨query, hmem⟩
      exact absurd hmem (hlimits query)
  · intro n hn
    cases hn
  · rw [hlasting, hquery]
    exact h.told.text

theorem Retraced.finish (h : Retraced q used x answers) (status : Status) (reason : String) :
    Faithful q used answers ⟨x.progress.query, x.progress.messages⟩ none
      (x.progress.finish status reason) :=
  h.unlimited rfl rfl h.told.lasting h.told.numbers h.told.limits

theorem Retraced.takenBack (h : Retraced q used x answers) {messages : List Message}
    (hmore : errorCount x.progress.messages < errorCount messages) (status : Status) (reason : String) :
    Faithful q used answers ⟨x.progress.query, x.progress.messages⟩ none
      ((x.progress.takeBack messages).finish status reason) := by
  have hundone : (x.progress.record messages).undone = true := decide_eq_true hmore
  -- The pass that was taken back has a number, but it is not one that lasts.
  have hlasting : lasting (x.progress.events ++ [x.progress.record messages]) = x.progress.events :=
    (lasting_undone hundone).trans h.told.lasting
  have hnumbers : (x.progress.events ++ [x.progress.record messages]).filterMap Event.number =
      numbered (used + 1) (answers.length + 1) := h.told.numbers_record messages
  have hlimits : ∀ query, Event.limit query ∉ x.progress.events ++ [x.progress.record messages] :=
    h.told.limits_record messages
  exact h.unlimited rfl rfl hlasting hnumbers hlimits

theorem Retraced.limited (h : Retraced q used x answers) {n : Int} {recheck : List Message}
    (hasked : some (.applyLimit n) ∈ ((limitWarnings x.progress.messages).map (·.action)).head?) :
    Faithful q used answers ⟨x.progress.query, x.progress.messages⟩ (some n)
      (x.progress.limited (limitWarnings x.progress.messages) (.applyLimit n) recheck) := by
  have hlasting : lasting (x.progress.limited (limitWarnings x.progress.messages) (.applyLimit n)
      recheck).events = x.progress.events ++ [.limit ((Action.applyLimit n).apply x.progress.query).render] := by
    change lasting (x.progress.events ++ [_]) = _
    rw [lasting_concat rfl, h.told.lasting]
  have hcorrected : (lasting (x.progress.limited (limitWarnings x.progress.messages) (.applyLimit n)
      recheck).events).filterMap Event.corrected = answers.map Answer.described := by
    rw [hlasting, List.filterMap_append, h.told.corrected]
    exact List.append_nil _
  refine ⟨⟨answers.length, ?_⟩, hcorrected, ?_, ?_, ?_, ?_, h.followed, ?_⟩
  · change (x.progress.events ++ [_]).filterMap Event.number = _
    rw [List.filterMap_append, h.told.numbers]
    exact List.append_nil _
  · rw [hcorrected, ← h.told.corrections]
    rfl
  · exact ⟨fun _ => ⟨_, List.mem_append_right _ (List.mem_singleton_self _)⟩, fun _ => rfl⟩
  · intro m hm
    obtain rfl := Option.some.inj hm
    exact hasked
  · rw [hlasting, List.getLast?_concat]
    rfl
  · change (Action.applyLimit n).apply x.progress.query = (Action.applyLimit n).apply _
    rw [h.told.query]

theorem Retraced.checked (h : Retraced q used x answers) {candidate : Query} {messages : List Message}
    {y : σ × List Answer} (hchecked : (noted check candidate).run x.state = (messages, y)) :
    y.2 = answers ++ ⟨x.progress.query, x.progress.messages⟩ :: [⟨candidate, messages⟩] := by
  rw [noted_answers hchecked, h.answers, List.append_assoc, List.singleton_append]

/-- However a run ends, its record is faithful. -/
theorem Retraced.faithful (h : Retraced q used x answers) {o : Outcome} {y : σ × List Answer}
    (hend : Ends (noted check) x (.ok o) y) : ∃ rest limit,
      y.2 = answers ++ ⟨x.progress.query, x.progress.messages⟩ :: rest ∧
      Faithful q used answers ⟨x.progress.query, x.progress.messages⟩ limit o := by
  cases hend with
  | valid valid => exact ⟨[], none, h.answers, h.finish _ _⟩
  | limitRefused valid checked => exact ⟨_, none, h.checked checked, h.finish _ _⟩
  | limited valid asked checked clean =>
    obtain ⟨n, rfl⟩ := exists_limit_of_asked asked
    exact ⟨_, some n, h.checked checked, h.limited asked⟩
  | unfinished invalid => exact ⟨[], none, h.answers, h.finish _ _⟩
  | takenBack repairable checked more => exact ⟨_, none, h.checked checked, h.takenBack more _ _⟩

end

/-- The record of a run is faithful, whatever the checks answer: its passes are numbered one after
another, its corrections are those of the passes that lasted and of the limit, its last text is that
of the query, and the answers of the checks, followed again from the first query, lead to the same. -/
theorem run_faithful {check : Query → StateM σ (List Message)} {bounds : Bounds} {q : Query} {used : Int}
    {s s' : σ} {o : Outcome} (h : (run check bounds q used).run s = (.ok o, s')) :
    ∃ answers final rest limit,
      (run (noted check) bounds q used).run (s, []) = (.ok o, s', answers ++ final :: rest) ∧
      Faithful q used answers final limit o := by
  -- Taking notes of the answers changes nothing in the run itself.
  have hprojects := run_projects_of (noted_projects check) bounds q used (s, [])
  change _ = (run check bounds q used).run s at hprojects
  rw [h] at hprojects
  obtain ⟨hresult, hstate⟩ := Prod.mk.inj hprojects
  obtain ⟨last, hpath, hend⟩ := loop_traced (noted check) bounds.stallLimit
    (bounds.maxPasses - used).toNat { query := q, messages := ((check q).run s).1, passes := used }
    (((check q).run s).2, [⟨q, ((check q).run s).1⟩])
  change Ends (noted check) last ((run (noted check) bounds q used).run (s, [])).1
    ((run (noted check) bounds q used).run (s, [])).2 at hend
  rw [hresult] at hend
  obtain ⟨answers, hlast⟩ := (Retraced.start q used _ _ _).path hpath
  obtain ⟨rest, limit, hrest, hfaithful⟩ := hlast.faithful hend
  refine ⟨answers, ⟨last.progress.query, last.progress.messages⟩, rest, limit, ?_, hfaithful⟩
  rw [← hrest, ← hstate, ← hresult]
  rfl

def demanding (q : Query) : StateM Unit (List Message) :=
  if q.items == [.field "Ids" none] then
    pure [.error "fields" "no such field" (some (.swapField "Ids" "Id" Clause.every))]
  else if q.limit.isNone then pure [⟨.warning, "governor", "no limit", some (.applyLimit 5), some 5⟩]
  else pure []

/-- A pass and a limit, both retold. -/
theorem run_faithful_demanding : ∃ o,
    (run demanding {} { object := "Account", items := [.field "Ids" none] } 0).run () = (.ok o, ()) ∧
      o.corrections = ["Field \"Ids\" replaced with \"Id\"", "Applied LIMIT 5"] ∧
      ∃ answers final rest limit,
        (run (noted demanding) {} { object := "Account", items := [.field "Ids" none] } 0).run ((), []) =
          (.ok o, (), answers ++ final :: rest) ∧
        Faithful { object := "Account", items := [.field "Ids" none] } 0 answers final limit o := by
  cases hrun : (run demanding {} { object := "Account", items := [.field "Ids" none] } 0).run () with
  | mk r s =>
    have hshown : r.toOption.map (·.corrections) =
        some ["Field \"Ids\" replaced with \"Id\"", "Applied LIMIT 5"] := by
      obtain rfl : _ = r := congrArg Prod.fst hrun
      decide +kernel
    cases r with
    | error f => cases hshown
    | ok o => exact ⟨o, rfl, Option.some.inj hshown, run_faithful hrun⟩

end Soql.Repair
