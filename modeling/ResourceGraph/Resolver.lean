import ResourceGraph.Api.Definition
import ResourceGraph.Config.ResourceSpec
import ResourceGraph.Store.Basic
import ResourceGraph.Store.Paging

/-!
Resolvers answer the fields of an API from a store. Only fields for which reading the key of their
own name is not enough have one: the query fields, renamed fields, and fields whose enumeration has
aliases.
-/

namespace ResourceGraph

/-- What answers a field. -/
inductive Resolver where
  /-- A page of a resource. -/
  | list (resource : Resource) (pagination : Pagination)
  /-- One record of a resource, by id. -/
  | single (resource : Resource)
  /-- The first records of every resource that match a text. -/
  | crossSearch (resources : List (Resource × Pagination))
  /-- A key of the record. -/
  | key (name : String)
  /-- A key of the record, with raw values put in place of their aliases. -/
  | enumKey (name : String) (substitutions : List (Value × Value))

/-- Resolvers by type and field. -/
abbrev ResolverMap := Keyed.Entries (Keyed.Entries Resolver)

namespace Resolver

/-- Each alias of an enumeration with the raw value of its name. -/
def substitutions (e : EnumDef) : Except String (List (Value × Value)) :=
  let primary := Keyed.ofPairs (e.values.map fun v => (v.name, v.value))
  e.aliases.mapM fun a =>
    match Keyed.find? a.name primary with
    | some raw => .ok (a.value, raw)
    | none => .error a.name

/-- Puts the raw value of a name in place of an alias. Kinds are kept apart. -/
def substitute (ts : List (Value × Value)) (v : Value) : Value :=
  match ts.find? fun t => v.sameKind t.1 && v.looseEq t.1 with
  | some t => t.2
  | none => v

def readEnum (name : String) (ts : List (Value × Value)) (source : Value) : Value :=
  match source.get name with
  | .arr items => .arr (items.map (substitute ts))
  | v => substitute ts v

/-- The parameters of a list query. A term is passed on only if there are paths to search. -/
def listParams (paths : List String) (args : Keyed.Entries Value) : Keyed.Entries Value :=
  let arg (k : String) : Value := (Value.obj args).get k
  let filters := args.filter fun (k, v) =>
    k != "search" && k != "limit" && k != "offset" && !v.isNull
  let term :=
    if (arg "search").truthy && !paths.isEmpty then [("search", arg "search")] else []
  Keyed.update (term ++ [("limit", arg "limit"), ("offset", arg "offset")]) filters

variable {σ ε : Type} [Exceptions ε] (store : Store σ ε)

def page (r : Resource) (p : Pagination) (params : Keyed.Entries Value) :
    StateM σ (Except ε (Keyed.Entries Value)) := do
  match ← store.search r.name params r.searchable p with
  | .error e => return .error e
  | .ok answer => return (normalizePage p answer).mapError Exceptions.ofFault

/-- Adds a total to the sum of those before. -/
def addTotal (sum total : Value) : Except Fault Value :=
  match sum.numeric?, total.numeric? with
  | some (.whole m), some (.whole n) => .ok (.int (m + n))
  | some (.whole m), some (.binary y) => .ok (.double ((Double.ofInt m).add y))
  | some (.binary x), some (.whole n) => .ok (.double (x.add (Double.ofInt n)))
  | some (.binary x), some (.binary y) => .ok (.double (x.add y))
  | _, _ => .error (.notAddable sum.kindWord total.kindWord)

/-- Searches resources in order. One without searchable paths is not asked. -/
def searchAll (query limit : Value) :
    List (Resource × Pagination) → Keyed.Entries Value → Value →
    StateM σ (Except ε (Keyed.Entries Value))
  | [], results, total => return .ok (Keyed.insert "totalCount" total results)
  | (r, p) :: rest, results, total => do
    if r.searchable.isEmpty then
      searchAll query limit rest (Keyed.insert r.listField (.arr []) results) total
    else
      match ← page store r p [("search", query), ("limit", limit), ("offset", .int 0)] with
      | .error e => return .error e
      | .ok found =>
        let found := Value.obj found
        match addTotal total (found.get "total") with
        | .error f => return .error (Exceptions.ofFault f)
        | .ok total =>
          searchAll query limit rest (Keyed.insert r.listField (found.get "items") results) total

/-- The answer of a resolver for a source and the arguments of the field. -/
def run (source : Value) (args : Keyed.Entries Value) :
    Resolver → StateM σ (Except ε Value)
  | .list r p => do
    match ← page store r p (listParams r.searchable args) with
    | .error e => return .error e
    | .ok found => return .ok (.obj found)
  | .single r => store.find r.name ((Value.obj args).get "id")
  | .crossSearch rs => do
    let args := Value.obj args
    match ← searchAll store (args.get "query") (args.get "limit") rs [] (.int 0) with
    | .error e => return .error e
    | .ok results => return .ok (.obj results)
  | .key name => return .ok (source.get name)
  | .enumKey name ts => return .ok (readEnum name ts source)

end Resolver

/-- The pagination of each resource name; of two specifications of one name the last counts. -/
def paginations (s : Specs) : Keyed.Entries Pagination :=
  Keyed.ofPairs (s.specs.map fun spec => (spec.name, spec.paginationDefaults))

def paginationFor (ps : Keyed.Entries Pagination) (resource : String) : Pagination :=
  (Keyed.find? resource ps).getD Pagination.default

namespace ResolverMap

def queryResolvers (a : Api) (ps : Keyed.Entries Pagination) : Keyed.Entries Resolver :=
  let fields := a.resources.flatMap fun r =>
    [(r.listField, .list r (paginationFor ps r.name)), (r.singleField, .single r)]
  Keyed.ofPairs (fields
    ++ [("search", .crossSearch (a.resources.map fun r => (r, paginationFor ps r.name)))])

/-- The resolver of a field, if reading its own name is not enough. -/
def fieldResolver? (a : Api) (f : Field) : Except String (Option Resolver) :=
  match Keyed.find? f.typeName a.enums with
  | some e =>
    if e.aliases.isEmpty then .ok (renamed? f)
    else (Resolver.substitutions e).map fun ts => some (.enumKey f.aliasedKey ts)
  | none => .ok (renamed? f)
where
  renamed? (f : Field) : Option Resolver := if f.isRenamed then some (.key f.recordKey) else none

def typeResolvers (a : Api) (t : TypeDef) : Except String (Keyed.Entries Resolver) := do
  let found ← t.fields.mapM fun f => do return (← fieldResolver? a f).map fun r => (f.name, r)
  return Keyed.ofPairs (found.filterMap id)

/-- All resolvers of an API. It fails with a name if an alias has a name that no value has. -/
def ofApi (a : Api) (ps : Keyed.Entries Pagination) : Except String ResolverMap := do
  let types ← a.types.mapM fun (_, t) => do return (t.name, ← typeResolvers a t)
  return Keyed.update [("Query", queryResolvers a ps)] (types.filter fun t => !t.2.isEmpty)

end ResolverMap

end ResourceGraph
