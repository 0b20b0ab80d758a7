import Soql.Proofs.Provider.Calls

namespace Soql

open Text

variable {σ : Type}

namespace Adjustment

def applies (r : ChatRequest) : Adjustment → Bool
  | newerLimit => !r.newerLimit
  | noTemperature => r.temperature.isSome
  | freeForm => r.jsonOnly

def words : Adjustment → List String
  | newerLimit => ["max_tokens", "max_completion_tokens"]
  | noTemperature => ["temperature", "supported"]
  | freeForm => ["response_format", "supported"]

def Concerns (reason : String) (a : Adjustment) : Prop :=
  ∀ b : Adjustment, mentions reason b.words = true ↔ b = a

def due (unwanted : Adjustment → Bool) (r : ChatRequest) : List Adjustment :=
  [newerLimit, noTemperature, freeForm].filter fun a => unwanted a && a.applies r

inductive Version (r : ChatRequest) : ChatRequest → Prop
  | first : Version r r
  | next {r' : ChatRequest} (h : Version r r') (a : Adjustment) : Version r (a.apply r')

variable {unwanted : Adjustment → Bool} {r : ChatRequest} {a : Adjustment} {reason : String}

theorem mem_due : a ∈ due unwanted r ↔ unwanted a = true ∧ a.applies r = true := by
  cases a <;> simp [due]

theorem applies_apply (a b : Adjustment) (r : ChatRequest) :
    b.applies (a.apply r) = (b.applies r && b != a) := by
  cases a <;> cases b <;> simp [applies, apply]

/-- An adjustment is no longer due once it is made, and the others stay due. -/
theorem due_apply (unwanted : Adjustment → Bool) (r : ChatRequest) (a : Adjustment) :
    due unwanted (a.apply r) = (due unwanted r).filter (· != a) := by
  unfold due
  rw [List.filter_filter]
  apply List.filter_congr
  intro b _
  rw [applies_apply, ← Bool.and_assoc, Bool.and_comm]

theorem length_due_apply (h : a ∈ due unwanted r) :
    (due unwanted (a.apply r)).length + 1 = (due unwanted r).length := by
  have hnodup : (due unwanted r).Nodup := List.Nodup.sublist List.filter_sublist (by decide)
  rw [due_apply, ← hnodup.erase_eq_filter, List.length_erase_of_mem h]
  exact Nat.sub_add_cancel (List.length_pos_of_mem h)

/-- A rejection that is about one parameter calls for the adjustment of that one. -/
theorem of?_of_concerns (hconcerns : Concerns reason a) (ha : a.applies r = true) :
    of? r reason = some a := by
  have hlimit := hconcerns newerLimit
  have htemperature := hconcerns noTemperature
  have hform := hconcerns freeForm
  unfold words at hlimit htemperature hform
  unfold of?
  cases a <;> simp_all [applies]

end Adjustment

open Adjustment

namespace Provider

/-- A provider refuses a request only for parameters that are not taken, always speaks of one of those
that are in the request, and answers the request as soon as there is none of them in it. -/
structure Particular (p : Provider σ) (request : ChatRequest) (unwanted : Adjustment → Bool) :
    Prop where
  rejects : ∀ {r}, Version request.initial r → ∀ s, due unwanted r ≠ [] →
    ∃ a ∈ due unwanted r, ∃ reason s', Concerns reason a ∧
      (p.chat r).run s = (.error (.rejected reason), s')
  answers : ∀ {r}, Version request.initial r → ∀ s, due unwanted r = [] →
    ∃ reply c s', (p.chat r).run s = (.ok reply, s') ∧ Completion.ofReply reply = .ok c

/-- A completion of the reply to the last of some calls, after rejections. -/
def Answered (result : Except Failure Completion) (calls : List ChatCall) : Prop :=
  ∃ before last reply c, calls = before ++ [⟨last, .ok reply⟩] ∧
    (∀ call ∈ before, ∃ reason, call.answer = .error (.rejected reason)) ∧
    result = .ok c ∧ c.text = trimmed (reply.content.getD "")

def Refused (model : String) (result : Except Failure Completion) (calls : List ChatCall) : Prop :=
  ∃ before last reason, calls = before ++ [⟨last, .error (.rejected reason)⟩] ∧
    result = .error (unavailable model reason)

theorem Refused.after {model : String} {result : Except Failure Completion} {calls : List ChatCall}
    (h : Refused model result calls) (earlier : List ChatCall) :
    Refused model result (earlier ++ calls) := by
  obtain ⟨before, last, reason, rfl, hresult⟩ := h
  exact ⟨earlier ++ before, last, reason, (List.append_assoc ..).symm, hresult⟩

theorem ofReply_text {reply : ChatReply} {c : Completion} (h : Completion.ofReply reply = .ok c) :
    c.text = trimmed (reply.content.getD "") := by
  unfold Completion.ofReply at h
  cases husage : reply.usage with
  | none =>
    rw [husage] at h
    cases h
    rfl
  | some report =>
    rw [husage] at h
    cases hread : Usage.ofReport (Completion.filledReport report) with
    | error f => simp [hread, bind, Except.bind] at h
    | ok usage =>
      simp only [hread, bind, Except.bind, pure, Except.pure] at h
      cases h
      rfl

section

variable {p : Provider σ} {r : ChatRequest} {s s' s'' : σ}

theorem chatAdjusting_of_ok {reply : ChatReply} (h : (p.chat r).run s = (.ok reply, s')) :
    (p.chatAdjusting r).run s = (.ok reply, s') := by
  rw [chatAdjusting, run_bind, h]
  rfl

theorem chatAdjusting_of_rejected {reason : String} {a : Adjustment}
    {answer : Except Failure ChatReply} (h : (p.chat r).run s = (.error (.rejected reason), s'))
    (ha : of? r reason = some a) (hthen : (p.chat (a.apply r)).run s' = (answer, s'')) :
    (p.chatAdjusting r).run s = (answer.mapError (finalFailure r.model), s'') := by
  rw [chatAdjusting, run_bind, h]
  simp only [ha]
  rw [run_bind, hthen]
  rfl

end

theorem attempt_run {p : Provider σ} {request : ChatRequest} {s s' : σ}
    {answer : Except Failure ChatReply}
    (h : (p.chatAdjusting request.initial).run s = (answer, s')) :
    (p.attempt request).run s = (answer.bind Completion.ofReply, s') := by
  rw [attempt, run_bind, h]
  rfl

variable {p : Provider σ} {request : ChatRequest} {unwanted : Adjustment → Bool}

/-- With one parameter in the way at most, the first attempt succeeds. -/
theorem Particular.attempt_few (h : p.Particular request unwanted)
    (hfew : (due unwanted request.initial).length ≤ 1) (s : σ) (calls : List ChatCall) :
    ∃ c made s', (p.recorded.attempt request).run (s, calls) = (.ok c, (s', calls ++ made)) ∧
      Answered (.ok c) made ∧ made.length = (due unwanted request.initial).length + 1 := by
  by_cases hdue : due unwanted request.initial = []
  -- The request is answered as it is.
  · obtain ⟨reply, c, s', hreply, hc⟩ := h.answers .first s hdue
    refine ⟨c, [⟨request.initial, .ok reply⟩], s', ?_,
      ⟨[], _, reply, c, rfl, ?_, rfl, ofReply_text hc⟩, ?_⟩
    · rw [attempt_run (chatAdjusting_of_ok (recorded_chat hreply calls)), ← hc]
      rfl
    · exact fun call hcall => absurd hcall List.not_mem_nil
    · rw [hdue]
      rfl
  -- It is rejected, and the one adjustment that is due is the one that is made.
  · obtain ⟨a, ha, reason, s', hconcerns, hfirst⟩ := h.rejects .first s hdue
    have hlength := length_due_apply ha
    have hthen : due unwanted (a.apply request.initial) = [] := List.length_eq_zero_iff.mp (by omega)
    obtain ⟨reply, c, s'', hreply, hc⟩ := h.answers (.next .first a) s' hthen
    refine ⟨c, [⟨request.initial, .error (.rejected reason)⟩, ⟨a.apply request.initial, .ok reply⟩],
      s'', ?_, ⟨[_], _, reply, c, rfl, ?_, rfl, ofReply_text hc⟩, ?_⟩
    · rw [attempt_run (chatAdjusting_of_rejected (recorded_chat hfirst calls)
        (of?_of_concerns hconcerns (mem_due.mp ha).2) (recorded_chat hreply _)), List.append_assoc, ← hc]
      rfl
    · intro call hcall
      rw [List.mem_singleton] at hcall
      exact ⟨reason, hcall ▸ rfl⟩
    · rw [← hlength, hthen]
      rfl

/-- With two parameters in the way or more, an attempt fails after two calls. -/
theorem Particular.attempt_many (h : p.Particular request unwanted)
    (hmany : 2 ≤ (due unwanted request.initial).length) (s : σ) (calls : List ChatCall) :
    ∃ f made s', (p.recorded.attempt request).run (s, calls) = (.error f, (s', calls ++ made)) ∧
      Refused request.model (.error f) made ∧ made.length = 2 := by
  obtain ⟨a, ha, reason, s', hconcerns, hfirst⟩ :=
    h.rejects .first s (List.ne_nil_of_length_pos (by omega))
  -- One adjustment is made, and another one is still due.
  have hlength := length_due_apply ha
  obtain ⟨b, -, again, s'', -, hsecond⟩ :=
    h.rejects (.next .first a) s' (List.ne_nil_of_length_pos (by omega))
  refine ⟨unavailable request.model again, [⟨request.initial, .error (.rejected reason)⟩,
    ⟨a.apply request.initial, .error (.rejected again)⟩], s'', ?_, ⟨[_], _, again, rfl, rfl⟩, rfl⟩
  rw [attempt_run (chatAdjusting_of_rejected (recorded_chat hfirst calls)
    (of?_of_concerns hconcerns (mem_due.mp ha).2) (recorded_chat hsecond _)), List.append_assoc]
  rfl

/-- Repetitions do not help: each starts from the first form of the request. -/
theorem Particular.retried_many (h : p.Particular request unwanted)
    (hmany : 2 ≤ (due unwanted request.initial).length) (more : Nat) (s : σ) (calls : List ChatCall) :
    ∃ f made s', (retried (p.recorded.attempt request) more).run (s, calls) =
        (.error f, (s', calls ++ made)) ∧
      Refused request.model (.error f) made ∧ made.length = 2 * (more + 1) := by
  -- By induction on the repetitions that are left; what the calls before them came to is of no account.
  induction more generalizing s calls with
  | zero => exact h.attempt_many hmany s calls
  | succ more ih =>
    obtain ⟨f, made, s', hrun, -, hlength⟩ := h.attempt_many hmany s calls
    obtain ⟨f', made', s'', hrun', hrefused, hlength'⟩ := ih s' (calls ++ made)
    refine ⟨f', made ++ made', s'', ?_, hrefused.after made, ?_⟩
    · rw [retried_of_error more (congrArg Prod.fst hrun), hrun, hrun', List.append_assoc]
    · rw [List.length_append, hlength, hlength']
      omega

theorem Particular.complete_few (h : p.Particular request unwanted)
    (hfew : (due unwanted request.initial).length ≤ 1) (s : σ) :
    ∃ c made s', (p.recorded.complete request).run (s, []) = (.ok c, (s', made)) ∧
      Answered (.ok c) made ∧ made.length = (due unwanted request.initial).length + 1 := by
  obtain ⟨c, made, s', hrun, hanswered, hlength⟩ := h.attempt_few hfew s []
  refine ⟨c, made, s', ?_, hanswered, hlength⟩
  rw [complete_eq, retried_of_ok 2 (congrArg Prod.fst hrun), hrun, List.nil_append]

theorem Particular.complete_many (h : p.Particular request unwanted)
    (hmany : 2 ≤ (due unwanted request.initial).length) (s : σ) :
    ∃ f made s', (p.recorded.complete request).run (s, []) = (.error f, (s', made)) ∧
      Refused request.model (.error f) made ∧ made.length = 6 :=
  h.retried_many hmany 2 s []

/-- With at most one parameter in the way that is not taken, a completion is made of the reply to the
call after its rejection; with more of them the completion fails after six calls, although the request
would be answered without them. -/
theorem complete_particular (h : p.Particular request unwanted) (s : σ) :
    let run := (p.recorded.complete request).run (s, [])
    (p.complete request).run s = (run.1, run.2.1) ∧
      ((due unwanted request.initial).length ≤ 1 →
        Answered run.1 run.2.2 ∧ run.2.2.length = (due unwanted request.initial).length + 1) ∧
      (2 ≤ (due unwanted request.initial).length →
        Refused request.model run.1 run.2.2 ∧ run.2.2.length = 6) := by
  refine ⟨(p.recorded_complete_projects request (s, [])).symm, fun hfew => ?_, fun hmany => ?_⟩
  · obtain ⟨c, made, s', hrun, hanswered, hlength⟩ := h.complete_few hfew s
    rw [hrun]
    exact ⟨hanswered, hlength⟩
  · obtain ⟨f, made, s', hrun, hrefused, hlength⟩ := h.complete_many hmany s
    rw [hrun]
    exact ⟨hrefused, hlength⟩

def rejection : Adjustment → String
  | .newerLimit => "Use 'max_completion_tokens' for 'max_tokens'."
  | .noTemperature => "'temperature' is not supported."
  | .freeForm => "'response_format' is not supported."

/-- A provider that takes none of the parameters that can be adjusted and speaks of the first of them. -/
def demanding : Provider Unit where
  chat r := return match due (fun _ => true) r with
    | a :: _ => .error (.rejected (rejection a))
    | [] => .ok { content := some "hi" }
  embed _ _ := return .ok []

theorem concerns_rejection (a : Adjustment) : Concerns (rejection a) a := by
  intro b
  cases a <;> cases b <;> decide +kernel

theorem demanding_particular (request : ChatRequest) :
    demanding.Particular request fun _ => true where
  rejects {r} _ s hdue := by
    obtain ⟨a, rest, hr⟩ := List.exists_cons_of_ne_nil hdue
    refine ⟨a, hr ▸ List.mem_cons_self, rejection a, s, concerns_rejection a, ?_⟩
    simp only [demanding, hr]
    rfl
  answers {r} _ s hdue := by
    refine ⟨{ content := some "hi" }, { text := trimmed "hi" }, s, ?_, rfl⟩
    simp only [demanding, hdue]
    rfl

/-- A model that is known to take neither a temperature nor the older limit is in no need of more than
one adjustment. -/
theorem complete_particular_reasoning :
    let request : ChatRequest := { model := "o1", system := "", user := "hello", jsonOnly := true }
    let run := (demanding.recorded.complete request).run ((), [])
    (due (fun _ => true) request.initial).length = 1 ∧ Answered run.1 run.2.2 ∧ run.2.2.length = 2 :=
  ⟨by decide +kernel,
    (complete_particular (demanding_particular _) ()).2.1 (by decide +kernel)⟩

/-- Any other model that takes neither is never got to answer, although it would without both. -/
theorem complete_twice_rejected :
    let request : ChatRequest := { model := "gpt-4o", system := "", user := "hello" }
    let run := (demanding.recorded.complete request).run ((), [])
    demanding.Particular request (fun _ => true) ∧ Refused "gpt-4o" run.1 run.2.2 ∧
      run.2.2.length = 6 ∧
      (demanding.chat (Adjustment.noTemperature.apply (Adjustment.newerLimit.apply request.initial))).run () =
        (.ok { content := some "hi" }, ()) := by
  intro request run
  have hparticular : demanding.Particular request fun _ => true := demanding_particular request
  obtain ⟨f, made, s', hrun, hrefused, hlength⟩ := hparticular.complete_many (by decide +kernel) ()
  rw [show run = _ from hrun]
  exact ⟨hparticular, hrefused, hlength, rfl⟩

end Provider

end Soql
