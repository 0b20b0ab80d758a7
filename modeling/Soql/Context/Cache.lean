import Soql.Context.Basic
import Soql.Scoring.Terms

/-!
Contexts kept for requests to come, for each tenant on its own. A context serves the same request, or
one with nearly the same terms, until it is too old; when there are too many, the one that was of no
use for longest goes. Times are of any kind that can be subtracted and compared.
-/

namespace Soql

open Text

def plainRequest (request : String) : String :=
  joined " " (words (lower request))

def keptTerms (request : String) : List String :=
  let kept := (lowerChars request.toList).filter fun c => c.isLower || c.isDigit || isBlank c
  let terms := (runsBetween isBlank kept).map String.ofList
  (terms.filter fun t => t.length > 2 && !Vocabulary.stopwords.contains t).eraseDups

structure Kept (τ α : Type) where
  key : String
  terms : List String
  content : α
  created : τ
  deriving Inhabited

structure CachePolicy (τ : Type) where
  /-- how old an entry may become -/
  lifetime : τ
  /-- how many entries a tenant may have -/
  capacity : Int
  /-- the share of common terms from which on two requests are nearly the same -/
  likeness : Float
  deriving Inhabited

abbrev Cache (τ α : Type) := List (Tenant × List (Kept τ α))

namespace Cache

variable {τ α : Type}

def entries (cache : Cache τ α) (tenant : Tenant) : List (Kept τ α) :=
  (Table.find? tenant cache).getD []

def size (cache : Cache τ α) (tenant : Tenant) : Nat :=
  (cache.entries tenant).length

def without (key : String) (entries : List (Kept τ α)) : List (Kept τ α) :=
  entries.filter (·.key != key)

/-- The entry for a request: the one under its key, or else the last used of those with nearly the
same terms. -/
def matching (policy : CachePolicy τ) (request : String) (entries : List (Kept τ α)) :
    Option (Kept τ α) :=
  let terms := keptTerms request
  (entries.find? (·.key == plainRequest request)).orElse fun _ =>
    if terms.isEmpty then none
    else entries.reverse.find? fun e => decide (policy.likeness ≤ jaccard terms e.terms)

/-- Looks a request up: entries that are too old are dropped, and the entry found moves to the end. -/
def get [Sub τ] [LT τ] [DecidableLT τ] (policy : CachePolicy τ) (now : τ) (request : String)
    (tenant : Tenant) (cache : Cache τ α) : Option α × Cache τ α :=
  let fresh := (cache.entries tenant).filter fun e => !decide (policy.lifetime < now - e.created)
  -- What is too old goes even when nothing is found.
  match matching policy request fresh with
  | some e => (some e.content, Table.put tenant (without e.key fresh ++ [e]) cache)
  | none => (none, if (cache.entries tenant).isEmpty then cache else Table.put tenant fresh cache)

def trimTo (capacity : Int) (entries : List (Kept τ α)) : List (Kept τ α) :=
  entries.drop (entries.length - capacity.toNat)

def put (policy : CachePolicy τ) (now : τ) (request : String) (content : α) (tenant : Tenant)
    (cache : Cache τ α) : Cache τ α :=
  let key := plainRequest request
  let entry : Kept τ α := ⟨key, keptTerms request, content, now⟩
  Table.put tenant (trimTo policy.capacity (without key (cache.entries tenant) ++ [entry])) cache

def invalidate (tenant : Tenant) (cache : Cache τ α) : Cache τ α :=
  Table.erase tenant cache

def clear (_ : Cache τ α) : Cache τ α :=
  []

end Cache

end Soql
