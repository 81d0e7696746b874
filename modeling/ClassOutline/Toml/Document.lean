/-
  ClassOutline.Toml.Document
  ────────────────────────────────
  **TOML DOCUMENTS.**

  A document is kept flat: every table, array of tables and value has a path
  from the root, and its entry says how it came to be.  That decides what may be
  added to it.  A table with a header of its own is defined once; one that a
  dotted key made can be extended by dotted keys; one that is only on the way to
  another can still get a header; an array of tables grows by one table per
  header, and a path through it means its last table.
-/
import ClassOutline.Toml.Scalar

namespace ClassOutline.Toml

/-! ## §1. Entries. -/

/-- One step of a path: a key, or an element of an array of tables. -/
inductive Step where
  | key (name : Text)
  | element (n : Nat)
  deriving DecidableEq, Repr

/-- How a part of a document came to be. -/
inductive Entry where
  | value (v : Value)
  /-- A table with a header of its own. -/
  | header
  /-- A table that is on the way to another. -/
  | implied
  /-- A table that a dotted key made. -/
  | dotted
  /-- An array of so many tables. -/
  | tables (count : Nat)
  deriving Repr

/-- The parts of a document by their paths. -/
structure Document where
  entries : List (List Step × Entry) := []
  deriving Repr

namespace Document

/-- How the part at a path came to be. -/
def get? (d : Document) (path : List Step) : Option Entry := d.entries.lookup path

/-- Set the entry at a path. -/
def set (d : Document) (path : List Step) (entry : Entry) : Document :=
  ⟨(path, entry) :: d.entries.filter fun e => e.1 ≠ path⟩

/-- The value of a key of the root. -/
def rootEntry? (d : Document) (name : String) : Option Entry := d.get? [.key name.toList]

/-! ## §2. Definitions. -/

/-- Go from a table along keys, making the tables that are missing; the document with them and
the path of the last.  Dotted keys may not enter a table that has a header, and nothing enters a
value. -/
def descend (byDottedKey : Bool) (d : Document) (base : List Step) :
    List Text → Option (Document × List Step)
  | [] => some (d, base)
  | name :: rest =>
    let path := base ++ [.key name]
    match d.get? path with
    | none =>
      descend byDottedKey (d.set path (if byDottedKey then .dotted else .implied)) path rest
    | some (.value _) => none
    | some (.tables count) => descend byDottedKey d (path ++ [.element count]) rest
    | some .header => if byDottedKey then none else descend byDottedKey d path rest
    | some .implied | some .dotted => descend byDottedKey d path rest

/-- The last key of a path and those before it. -/
def splitLast? (path : List Text) : Option (List Text × Text) :=
  path.getLast?.map fun last => (path.dropLast, last)

/-- Give a key of the table at `base` a value.  A dotted key adds only to tables that dotted
keys made. -/
def assign (d : Document) (base : List Step) (path : List Text) (v : Value) : Option Document := do
  let (front, name) ← splitLast? path
  let (d, table) ← d.descend true base front
  let mayAdd : Bool := match front, d.get? table with
    | [], _ | _, some .dotted => true
    | _, _ => false
  if mayAdd ∧ (d.get? (table ++ [.key name])).isNone then
    some (d.set (table ++ [.key name]) (.value v))
  else none

/-- Open the table that a header names; its path. -/
def openTable (d : Document) (path : List Text) : Option (Document × List Step) := do
  let (front, name) ← splitLast? path
  let (d, parent) ← d.descend false [] front
  let table := parent ++ [.key name]
  match d.get? table with
  | none | some .implied => some (d.set table .header, table)
  | _ => none

/-- Open a new last table of the array that a header names; its path. -/
def openElement (d : Document) (path : List Text) : Option (Document × List Step) := do
  let (front, name) ← splitLast? path
  let (d, parent) ← d.descend false [] front
  let array := parent ++ [.key name]
  match d.get? array with
  | none => some (d.set array (.tables 1), array ++ [.element 1])
  | some (.tables count) =>
    some (d.set array (.tables (count + 1)), array ++ [.element (count + 1)])
  | _ => none

end Document

/-! ## §3. Values with parts. -/

open Reader

/-- The keys and values of an inline table fit together. -/
def fitTogether (pairs : List (List Text × Value)) : Bool :=
  (pairs.foldlM (fun d pair => Document.assign d [] pair.1 pair.2) ({} : Document)).isSome

/-- An array of what `item` reads; line ends and comments may stand around each item, and a
comma behind the last. -/
def array (item : Reader Value) : Reader Value := do
  let _ ← char '['
  let items ← (do
      let items ← sepBy1 (gaps *> item <* gaps) (char ',')
      let _ ← optional (char ',')
      return items) <|> pure []
  gaps
  let _ ← char ']'
  return .array items

/-- An inline table with the values that `item` reads, all on one line. -/
def inlineTable (item : Reader Value) : Reader Value := do
  let _ ← char '\x7b'
  let pair : Reader (List Text × Value) := do
    let path ← key
    let _ ← char '='
    return (path, ← spaces *> item <* spaces)
  let pairs ← sepBy1 pair (char ',') <|> pure []
  let _ ← spaces
  let _ ← char '\x7d'
  if fitTogether pairs then return .table pairs else failure

/-- A value with at most so many levels of arrays and inline tables. -/
def valueWithin : Nat → Reader Value
  | 0 => scalarValue
  | levels + 1 =>
    scalarValue <|> array (valueWithin levels) <|> inlineTable (valueWithin levels)

/-- A value. -/
def value : Reader Value := valueWithin (depthLimit - 1)

/-! ## §4. Lines. -/

/-- One line of a document. -/
inductive Line where
  | blank
  | assignment (path : List Text) (v : Value)
  | table (path : List Text)
  | element (path : List Text)
  deriving Repr

/-- The end of a line, or of the document. -/
def lineEnd : Reader Unit := do
  let _ ← spaces
  let _ ← optional comment
  newline <|> atEnd

/-- What a line says. -/
def lineContent : Reader Line :=
  (do string "[["; let path ← key; string "]]"; return .element path)
    <|> (do string "["; let path ← key; string "]"; return .table path)
    <|> (do
      let path ← key
      let _ ← char '='
      let _ ← spaces
      return .assignment path (← value))
    <|> pure .blank

/-- A line with its end. -/
def line : Reader Line := spaces *> lineContent <* lineEnd

/-- What a line adds to a document, given the path of the table that is open. -/
def Document.add (d : Document) (base : List Step) : Line → Option (Document × List Step)
  | .blank => some (d, base)
  | .assignment path v => (d.assign base path v).map (·, base)
  | .table path => d.openTable path
  | .element path => d.openElement path

/-- The document that lines make up. -/
def Document.ofLines? (lines : List Line) : Option Document :=
  (lines.foldlM (fun s l => Document.add s.1 s.2 l) (({}, []) : Document × List Step)).map Prod.fst

/-- The document that a text writes, if it is one.  A byte order mark may stand in front. -/
def Document.parse? (t : Text) : Option Document :=
  let unmarked := (t.after? ['\ufeff']).getD t
  (Reader.run (many line) unmarked).bind Document.ofLines?

end ClassOutline.Toml
