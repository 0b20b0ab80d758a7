import Soql.Failure
import Soql.Query.Reference

namespace Soql

open Text

inductive Action where
  /-- queries another object -/
  | swapObject (old new : String)
  /-- names another field in some clauses -/
  | swapField (old new : String) (clauses : List Clause)
  /-- takes another path to a field -/
  | fixPath (old corrected : String)
  /-- names another field in the query for some child records -/
  | fixChildField (relationship old new : String)
  /-- takes other child records -/
  | swapChild (old new : String)
  /-- groups by further expressions -/
  | addGroupBy (fields : List String)
  /-- limits the number of records -/
  | applyLimit (limit : Int)
  /-- takes away names where none may stand, and the keyword in front of the others -/
  | stripAs
  /-- compares with another literal -/
  | replaceLiteral (field old new : String)
  /-- filters by a semi-join in place of a path through a joining object -/
  | toSemiJoin (path junction link parentField : String)
  deriving DecidableEq, Repr, Inhabited

namespace QueryOf

variable {κ : Type}

def renameItem (old new : String) : SelectItem κ → SelectItem κ
  | .field path a => .field (renamePath old new path) a
  | .call name args a => .call name (args.map (renamePath old new)) a
  | item => item

def renameIn (clauses : List Clause) (old new : String) (q : QueryOf κ) : QueryOf κ :=
  let rename := renamePath old new
  { q with
    items :=
      if clauses.contains .select then q.items.map (renameItem old new) else q.items
    filter :=
      if clauses.contains .filter then
        q.filter.map (·.mapLeaves fun l => l.withField (rename l.field))
      else q.filter
    groupBy := if clauses.contains .group then q.groupBy.map rename else q.groupBy
    orderBy :=
      if clauses.contains .order then
        q.orderBy.map fun k => { k with field := rename k.field }
      else q.orderBy }

def hasPaths (clauses : List Clause) (q : QueryOf κ) : Bool :=
  clauses.any fun
    | .select => q.items.any fun
      | .field _ _ => true
      | .call _ args _ => !args.isEmpty
      | _ => false
    | .filter => !q.leaves.isEmpty
    | .group => !q.groupBy.isEmpty
    | .order => !q.orderBy.isEmpty

/-- A query with its further groups, each once in any letter case of those there were before. -/
def groupAlso (fields : List String) (q : QueryOf κ) : QueryOf κ :=
  let present := q.groupBy.map lower
  { q with groupBy := q.groupBy ++ fields.filter fun f => !present.contains (lower f) }

def mapFilter (change : Leaf κ → Leaf κ) (q : QueryOf κ) : QueryOf κ :=
  { q with filter := q.filter.map (·.mapLeaves change) }

end QueryOf

namespace Action

def changeChildren (relationship : String) (change : InnerQuery → InnerQuery) (q : Query) : Query :=
  { q with items := q.items.map fun
      | .child inner =>
        .child (if sameLower inner.object relationship then change inner else inner)
      | item => item }

/-- A select item without the keyword for its name; a field has no name at all. -/
def stripItem {κ : Type} : SelectItem κ → SelectItem κ
  | .field path _ => .field path none
  | .call name args a => .call name args (a.map Alias.bare)
  | item => item

def relabel (field old new : String) : Leaf InnerQuery → Leaf InnerQuery
  | .compare c =>
    if sameLower c.field field then
      let value := replaceAll (asLiteral old) (asLiteral new) c.value.toList
      .compare { c with value := .ofList value }
    else .compare c
  | join => join

def joinThrough (junction link parentField rest : String) (c : Comparison) : SemiJoin InnerQuery where
  field := parentField
  query := {
    object := junction
    items := [.field link none]
    filter := some (.leaf (.compare { c with field := rest })) }

def intoSemiJoin (path junction link parentField : String) : Leaf InnerQuery → Leaf InnerQuery
  | .compare c =>
    if sameLower c.field path then
      .semiJoin (joinThrough junction link parentField (afterFirstPoint path) c)
    else .compare c
  | join => join

def apply (q : Query) : Action → Query
  | swapObject old new =>
    if sameLower q.object old then { q with object := new } else q
  | swapField old new clauses => q.renameIn clauses old new
  | fixPath old corrected => q.renameIn Clause.every old corrected
  | fixChildField relationship old new =>
    changeChildren relationship (·.renameIn Clause.every old new) q
  | swapChild old new =>
    changeChildren old (fun inner => { inner with object := new }) q
  | addGroupBy fields => q.groupAlso fields
  | applyLimit limit => { q with limit := some limit }
  | stripAs => { q with items := q.items.map stripItem }
  | replaceLiteral field old new => q.mapFilter (relabel field old new)
  | toSemiJoin path junction link parentField =>
    q.mapFilter (intoSemiJoin path junction link parentField)

/-- The new path that a correction of a query writes in place of another one, if it comes to that. -/
def template? (q : Query) : Action → Option String
  | swapField _ new clauses => if q.hasPaths clauses then some new else none
  | fixPath _ corrected => if q.hasPaths Clause.every then some corrected else none
  | fixChildField relationship _ new =>
    if q.children.any fun inner => sameLower inner.object relationship && inner.hasPaths Clause.every then some new
    else none
  | _ => none

def perform (q : Query) (a : Action) : Except Failure Query :=
  match (a.template? q).map fun new => Template.read new.toList with
  | some (.error e) => .error (.unreadable e)
  | _ => .ok (a.apply q)

def describe : Action → String
  | swapObject old new =>
    "Object \"" ++ old ++ "\" replaced with \"" ++ new ++ "\""
  | swapField old new _ =>
    "Field \"" ++ old ++ "\" replaced with \"" ++ new ++ "\""
  | fixPath old corrected =>
    "Lookup path \"" ++ old ++ "\" corrected to \"" ++ corrected ++ "\""
  | fixChildField relationship old new =>
    "Field \"" ++ old ++ "\" in " ++ relationship ++ " sub-query replaced with \"" ++
      new ++ "\""
  | swapChild old new =>
    "Child relationship \"" ++ old ++ "\" replaced with \"" ++ new ++ "\""
  | addGroupBy fields => "Added " ++ joined ", " fields ++ " to GROUP BY"
  | applyLimit limit => "Applied LIMIT " ++ toString limit
  | stripAs => "Removed AS keyword from select aliases"
  | replaceLiteral field old new =>
    "Value '" ++ old ++ "' for " ++ field ++ " replaced with '" ++ new ++ "'"
  | toSemiJoin path junction link parentField =>
    "Rewrote " ++ path ++ " as " ++ parentField ++ " IN (SELECT " ++ link ++ " FROM " ++ junction ++
      " ...)"

/-- When a correction is made among others: other objects come first, and other child records last,
so that corrections inside the query for child records still find it. -/
def rank : Action → Nat
  | swapObject _ _ => 0
  | swapChild _ _ => 2
  | _ => 1

def inOrder (actions : List Action) : List Action :=
  let distinct := actions.eraseDups
  [0, 1, 2].flatMap fun r => distinct.filter fun a => a.rank == r

def performAll (q : Query) (actions : List Action) : Except Failure Query :=
  (inOrder actions).foldlM perform q

def applyAll (q : Query) (actions : List Action) : Query :=
  (inOrder actions).foldl apply q

end Action

end Soql
