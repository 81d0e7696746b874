/-
  ClassOutline.Nesting.DictEntry
  ────────────────────────────────
  **THE ENTRIES OF A DICT, ALSO WITH COMMAS MISSING.**

  A piece between two commas of a dict holds one `key: value`.  If it has
  several top-level colons, commas are missing: what stands between two colons
  is a value followed by the next key, and the key is the last item of it, or
  at least its last atom.  A colon that ends the parameters of a `lambda`
  divides nothing.
-/
import ClassOutline.Nesting.Atom

namespace ClassOutline

/-- One entry of a dict as written. -/
structure DictEntry where
  key : Text
  value : Text
  deriving DecidableEq, Repr

namespace DictEntry

/-- The parts of a piece between its dividing colons, untrimmed: cut at every top-level
colon, and join again what a `lambda` colon cut, of which `lambdas` are open. -/
def rejoinLambdas (lambdas : Nat) : List Text → List Text
  | [] => []
  | [last] => [last]
  | part :: parts =>
    let opened := lambdas + (part.atoms.filter (· == "lambda".toList)).length
    match opened, rejoinLambdas (opened - 1) parts with
    | 0, joined => part :: joined
    | _ + 1, next :: joined => (part ++ ':' :: next) :: joined
    | _ + 1, [] => [part]

/-- The parts of `piece` between the colons that divide key from value. -/
def colonParts (piece : Text) : List Text :=
  let (first, others) := Text.cutUnits ':' piece.lexemes
  rejoinLambdas 0 (first :: others)

/-- A value and the key of the next entry, given what stands between two dividing colons.
Nothing if it is a single atom. -/
def valueAndKey? (between : Text) : Option (Text × Text) :=
  let atomized := between.atomized
  let items := Text.joinAtoms atomized.atoms
  match (if 2 ≤ items.length then items else atomized.atoms).reverse with
  | last :: previous =>
    if previous.isEmpty then none
    else
      let value := previous.reverse.flatMap (fun a => a.gap ++ a.text) ++ last.gap
      some (Text.trim value, Text.trim (last.text ++ atomized.trailing))
  | [] => none

/-- The entries whose first key is `key` and whose colons are followed by `parts`. -/
def chain? (key : Text) : List Text → Option (List DictEntry)
  | [] => some []
  | [value] => some [⟨key, Text.trim value⟩]
  | between :: parts =>
    match valueAndKey? between with
    | none => none
    | some (value, next) => (chain? next parts).map (⟨key, value⟩ :: ·)

end DictEntry

/-- The entries found in one comma-delimited piece of a dict. -/
structure DictEntries where
  entries : List DictEntry
  /-- Missing commas had to be made up for. -/
  recovered : Bool
  deriving DecidableEq, Repr

/-- The entries of `piece`: none without a colon, one with a single colon, and as many as
there are colons where each value can be told from the next key.  Where one cannot, the piece
stays whole behind its first colon. -/
def Text.dictEntries (piece : Text) : DictEntries :=
  match DictEntry.colonParts piece with
  | [] | [_] => ⟨[], false⟩
  | [key, value] => ⟨[⟨Text.trim key, Text.trim value⟩], false⟩
  | key :: parts =>
    match DictEntry.chain? (Text.trim key) parts with
    | some entries => ⟨entries, true⟩
    | none => ⟨[⟨Text.trim key, Text.trim ([':'].intercalate parts)⟩], false⟩

end ClassOutline
