import ExprLang.Param

/-!
# Parameter lists

An ordered list of parameters in which a name stands at most once. Every operation that adds
a parameter first looks for one of the same name: `pushBack` and `insert` change it where it
stands, `pushFront` removes it and puts the new one first. `rename` refuses a name that is
taken by another parameter.

Operations that report something return it beside the new list: `erase` the parameter it
removed, `rename`, `setDescription` and `setStatus` whether they found their parameter.
-/

namespace ExprLang

/-- An ordered list of parameters with unique names. -/
structure Params where
  items : List Parameter := []
deriving Repr, Inhabited

namespace Params

/-- The empty list. -/
def empty : Params := ⟨[]⟩

/-- Changes the first parameter named `name` by `f`; nothing when there is none. -/
def modifyNamed (name : String) (f : Parameter → Parameter) :
    List Parameter → Option (List Parameter)
  | [] => none
  | q :: qs => if q.name == name then some (f q :: qs) else (modifyNamed name f qs).map (q :: ·)

/-- Removes the first parameter named `name`, giving it and the rest in order. -/
def removeNamed (name : String) : List Parameter → Option Parameter × List Parameter
  | [] => (none, [])
  | q :: qs =>
    if q.name == name then (some q, qs)
    else
      let (found, rest) := removeNamed name qs
      (found, q :: rest)

/-- The number of parameters. -/
def size (ps : Params) : Nat := ps.items.length

/-- Whether the list is empty. -/
def isEmpty (ps : Params) : Bool := ps.items.isEmpty

/-- The parameter named `name`. -/
def find? (ps : Params) (name : String) : Option Parameter :=
  ps.items.find? (·.name == name)

/-- Whether a parameter is named `name`. -/
def contains (ps : Params) (name : String) : Bool :=
  ps.items.any (·.name == name)

/-- Appends `p`, or puts it in place of the parameter of the same name. -/
def pushBack (ps : Params) (p : Parameter) : Params :=
  match modifyNamed p.name (fun _ => p) ps.items with
  | some items => ⟨items⟩
  | none => ⟨ps.items ++ [p]⟩

/-- Removes the parameter named `name`, giving it and the new list. -/
def erase (ps : Params) (name : String) : Option Parameter × Params :=
  let (found, items) := removeNamed name ps.items
  (found, ⟨items⟩)

/-- Puts `p` first, dropping the parameter of the same name. -/
def pushFront (ps : Params) (p : Parameter) : Params :=
  ⟨p :: (ps.erase p.name).2.items⟩

/-- Binds `name` to `value`: the parameter of that name keeps its description and flag,
otherwise a new parameter is appended. -/
def insert (ps : Params) (name : String) (value : Param) : Params :=
  match modifyNamed name (fun q => { q with value }) ps.items with
  | some items => ⟨items⟩
  | none => ⟨ps.items ++ [{ name, value }]⟩

/-- Renames `old` to `new`. Refused when `new` is the name of another parameter; `false` also
when there is no parameter `old`. -/
def rename (ps : Params) (old new : String) : Bool × Params :=
  if old != new && ps.contains new then (false, ps)
  else
    match modifyNamed old (fun q => { q with name := new }) ps.items with
    | some items => (true, ⟨items⟩)
    | none => (false, ps)

/-- Sets the description of the parameter `name`, if there is one. -/
def setDescription (ps : Params) (name description : String) : Bool × Params :=
  match modifyNamed name (fun q => { q with description }) ps.items with
  | some items => (true, ⟨items⟩)
  | none => (false, ps)

/-- Sets the enabled flag of the parameter `name`, if there is one. -/
def setStatus (ps : Params) (name : String) (status : Bool) : Bool × Params :=
  match modifyNamed name (fun q => { q with status }) ps.items with
  | some items => (true, ⟨items⟩)
  | none => (false, ps)

/-- The first parameter. -/
def front? (ps : Params) : Option Parameter := ps.items.head?

/-- The last parameter. -/
def back? (ps : Params) : Option Parameter := ps.items.getLast?

/-- The list of parameters pushed to the back one after another, so that a later parameter
takes the place of an earlier one of the same name. -/
def ofList (l : List Parameter) : Params :=
  l.foldl pushBack empty

end Params

end ExprLang
