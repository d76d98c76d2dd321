import MappedNetlist.Toml.Value

/-!
# Building TOML tables

A table grows by statements: a header opens a table, a double header opens a new element of a
table array, and an assignment puts a value under a key. What a later statement may still do to a
table depends on how it came to be (`Origin`). A header may open a table that was so far only
passed through, but not one that has a header or that a dotted key made; a dotted key may go on
through tables that have no header of their own, and may assign only in tables that dotted keys
made. A header goes on in the last element of a table array. Every key is given a value once.
-/

namespace MappedNetlist.Toml

/-- How a table came to be: by a header or as a value of its own, by headers of tables inside it,
or by a dotted key. -/
inductive Origin
  | header
  | implied
  | dotted
  deriving DecidableEq, Repr

/-- What stands under a key while a document is read. -/
inductive Node
  | value (v : Value)
  | table (origin : Origin) (fields : List (String × Node))
  | elements (tables : List (List (String × Node)))

/-- The keys of a table in the order in which they were first used. -/
abbrev Fields := List (String × Node)

namespace Fields

/-- What stands under a key. -/
def find? (fields : Fields) (key : String) : Option Node :=
  (List.find? (·.1 = key) fields).map Prod.snd

/-- Puts a node under a key, in the place of what is there. -/
def put (fields : Fields) (key : String) (node : Node) : Fields :=
  match fields with
  | [] => [(key, node)]
  | (k, old) :: rest => if k = key then (k, node) :: rest else (k, old) :: put rest key node

end Fields

/-- Changes the table at the end of a path by `change`, which also learns how that table came to
be. Tables that are missing on the way come to be as `fresh`; on the way of a dotted key there
must be no table with a header. -/
def descend (fresh : Origin) (change : Origin → Fields → Option Fields) :
    List String → Origin → Fields → Option Fields
  | [], origin, fields => change origin fields
  | key :: path, _, fields => do
    match fields.find? key with
    | none =>
      let inner ← descend fresh change path fresh []
      return fields.put key (.table fresh inner)
    | some (.value _) => failure
    | some (.table origin inner) =>
      if fresh = .dotted ∧ origin = .header then failure
      let inner ← descend fresh change path origin inner
      return fields.put key (.table origin inner)
    | some (.elements tables) =>
      let last ← tables.getLast?
      let last ← descend fresh change path .header last
      return fields.put key (.elements (tables.dropLast ++ [last]))

/-- Opens the table under a key of the table at the end of a path. -/
def openTable (path : List String) (key : String) : Origin → Fields → Option Fields :=
  descend .implied (fun _ fields =>
    match fields.find? key with
    | none => some (fields.put key (.table .header []))
    | some (.table .implied inner) => some (fields.put key (.table .header inner))
    | some _ => none) path

/-- Opens a new element of the table array under a key of the table at the end of a path. -/
def openElement (path : List String) (key : String) : Origin → Fields → Option Fields :=
  descend .implied (fun _ fields =>
    match fields.find? key with
    | none => some (fields.put key (.elements [[]]))
    | some (.elements tables) => some (fields.put key (.elements (tables ++ [[]])))
    | some _ => none) path

/-- Assigns a value to a key that is dotted with `path` before it. -/
def assign (path : List String) (key : String) (v : Value) : Origin → Fields → Option Fields :=
  descend .dotted (fun origin fields =>
    if decide (origin = .dotted) = path.isEmpty then none
    else
      match fields.find? key with
      | none => some (fields.put key (.value v))
      | some _ => none) path

mutual

/-- The value that has come to stand under a key. -/
def Node.toValue : Node → Value
  | .value v => v
  | .table _ fields => .table (fieldValues fields)
  | .elements tables => .array (elementValues tables)

def fieldValues : List (String × Node) → List (String × Value)
  | [] => []
  | (k, n) :: rest => (k, n.toValue) :: fieldValues rest

def elementValues : List (List (String × Node)) → List Value
  | [] => []
  | t :: ts => .table (fieldValues t) :: elementValues ts

end

/-- A line of a document that says something. -/
inductive Statement
  | table (path : List String) (key : String)
  | element (path : List String) (key : String)
  | assignment (path : List String) (key : String) (v : Value)

/-- A document so far: its root, and the path of the table that assignments go to. -/
structure Document where
  root : Fields := []
  current : List String := []

/-- The document after one more statement, unless the statement goes against those before it. -/
def Document.extend (d : Document) : Statement → Option Document
  | .table path key => do
    return ⟨← openTable path key .header d.root, path ++ [key]⟩
  | .element path key => do
    return ⟨← openElement path key .header d.root, path ++ [key]⟩
  | .assignment path key v => do
    return { d with root := ← descend .implied (assign path key v) d.current .header d.root }

/-- The table that a document says. -/
def Document.ofStatements? (statements : List Statement) : Option Document :=
  statements.foldlM Document.extend {}

def Document.toValue (d : Document) : Value := .table (fieldValues d.root)

/-- The table of an inline table's assignments. -/
def inlineTable? (assignments : List (List String × String × Value)) : Option Value := do
  let fields ← assignments.foldlM (fun fields (path, key, v) => assign path key v .header fields) []
  return .table (fieldValues fields)

end MappedNetlist.Toml
