import Soql.Failure
import Soql.Schema.Graph

/-!
Work that depends on collaborators: the schema of a tenant, the search among its records, the
likeness of meanings, and the completion of texts. Such work is a dialogue: it is done, or it has
failed, or it asks a question and goes on with the answer. Who answers is left open; questions that
are asked together are one question here.
-/

namespace Soql

inductive Role where
  | plan | code
  deriving DecidableEq, Repr, Inhabited

def Role.text : Role → String
  | plan => "plan"
  | code => "code"

structure Prompt where
  system : String
  user : String
  deriving DecidableEq, Repr, Inhabited

inductive Reply (α : Type) where
  | answered (a : α)
  | failed (failure : Failure)
  /-- there is never an answer -/
  | silent
  deriving DecidableEq, Repr, Inhabited

/-- The replies to calls made together: the first failure counts, and otherwise all must answer. -/
def Reply.all {α : Type} : List (Reply α) → Reply (List α)
  | [] => .answered []
  | r :: rest =>
    match r, Reply.all rest with
    | failed f, _ => .failed f
    | _, failed f => .failed f
    | answered a, answered as => .answered (a :: as)
    | _, _ => .silent

abbrev Vectors := List (String × List Float)

inductive Question where
  | catalog (tenant : Tenant)
  | details (tenant : Tenant) (names : List String)
  /-- the vectors of some objects, and that of a text -/
  | vectors (tenant : Tenant) (names : List String) (text : String)
  /-- records, for each search within a time, whether their replies are awaited or not -/
  | searches (tenant : Tenant) (time : Float) (texts : List String) (awaited : Bool)
  | completion (role : Role) (prompt : Prompt)
  deriving Inhabited

def Question.Answer : Question → Type
  | catalog _ => Except Failure (List Summary)
  | details _ _ => Except Failure (List (Option SObject))
  | vectors _ _ _ => Except Failure (Vectors × List Float)
  | searches _ _ _ _ => List (Reply (List Record))
  | completion _ _ => Except Failure String

inductive Dialogue (α : Type) where
  | done (a : α)
  | failed (failure : Failure)
  | ask (question : Question) (next : question.Answer → Dialogue α)

namespace Dialogue

variable {α β : Type}

def bind (d : Dialogue α) (next : α → Dialogue β) : Dialogue β :=
  match d with
  | done a => next a
  | failed f => failed f
  | ask q k => ask q fun answer => (k answer).bind next

instance : Monad Dialogue where
  pure := done
  bind := bind

def ofExcept : Except Failure α → Dialogue α
  | .ok a => done a
  | .error f => failed f

/-- Asks a question that may fail; another failure is told in its place. -/
def askOr (question : Question) (describe : Failure → Failure)
    (read : question.Answer → Except Failure α) : Dialogue α :=
  ask question fun answer =>
    match read answer with
    | .ok a => done a
    | .error f => failed (describe f)

def catalog (tenant : Tenant) : Dialogue (List Summary) :=
  askOr (.catalog tenant) (Failure.during "graph" "object catalog unavailable") id

def details (tenant : Tenant) (names : List String) : Dialogue (List SObject) :=
  askOr (.details tenant names) (Failure.during "graph" "object details unavailable") fun answer =>
    Except.map (fun found => found.filterMap id) answer

end Dialogue

end Soql
