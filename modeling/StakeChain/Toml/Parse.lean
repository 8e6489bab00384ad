import StakeChain.Toml.Lexical

/-!
# Reading TOML documents

A document is a sequence of lines, each empty, a comment, a table header `[a.b]`, an
array-of-tables header `[[a.b]]`, or a key/value pair `a.b = value` (which goes to the table of
the last header).  Values are strings, numbers, date-times, booleans, arrays (across lines, with
comments and a trailing comma) and inline tables (on one line, without a trailing comma).

`Toml.parse?` gives the document's root table, or `none` for a text that is not TOML: a
syntax error, a key given twice, a table defined twice, or an addition to a closed value.
A byte order mark at the start of the text is skipped.

Nesting is limited: a key has fewer than `nestingLimit` parts, and arrays and inline tables
nest fewer than `nestingLimit` deep.  Every step of the readers consumes input; their fuel is
the length of the text they read.
-/

set_option autoImplicit false

namespace StakeChain.Toml

/-- The bound on the parts of a key and on the nesting of values. -/
def nestingLimit : Nat := 80

/-- Characters of a bare key. -/
def isBareKeyChar (c : Char) : Bool := c.isAlphanum || c = '_' || c = '-'

/-- One part of a key: bare, or a single-line string. -/
def simpleKey : List Char → Option (String × List Char)
  | '"' :: rest => basicBody rest []
  | '\'' :: rest => literalBody rest []
  | cs =>
    let k := cs.takeWhile isBareKeyChar
    if k.isEmpty then none else some (String.ofList k, cs.dropWhile isBareKeyChar)

/-- A dotted key: its parts, with blanks allowed around the dots. -/
def dottedKey : Nat → List Char → Option (List String × List Char)
  | 0, _ => none
  | fuel + 1, cs => do
    let (k, rest) ← simpleKey cs
    match skipBlank rest with
    | '.' :: more =>
      let (ks, rest') ← dottedKey fuel (skipBlank more)
      pure (k :: ks, rest')
    | _ => pure ([k], rest)

/-- A dotted key of fewer than `nestingLimit` parts. -/
def key? (cs : List Char) : Option (List String × List Char) := do
  let (ks, rest) ← dottedKey (cs.length + 1) cs
  if ks.length < nestingLimit then pure (ks, rest) else none

mutual

/-- A value at the start of the text, inside `depth` arrays and inline tables. -/
def value : Nat → Nat → List Char → Option (Toml × List Char)
  | 0, _, _ => none
  | fuel + 1, depth, cs =>
    match cs with
    | '"' :: _ | '\'' :: _ => (string? cs).map fun (s, rest) => (.str s, rest)
    | '[' :: rest => if depth + 1 < nestingLimit then arrayItems fuel (depth + 1) rest [] else none
    | '{' :: rest => if depth + 1 < nestingLimit then inlineFields fuel (depth + 1) rest [] else none
    | 't' :: 'r' :: 'u' :: 'e' :: rest => some (.bool true, rest)
    | 'f' :: 'a' :: 'l' :: 's' :: 'e' :: rest => some (.bool false, rest)
    | _ => scalar? cs

/-- The items of an array after its opening bracket, up to and past the closing bracket. -/
def arrayItems : Nat → Nat → List Char → List Toml → Option (Toml × List Char)
  | 0, _, _, _ => none
  | fuel + 1, depth, cs, acc => do
    match ← skipFiller false cs with
    | ']' :: rest => pure (.arr acc.reverse, rest)
    | cs =>
      let (v, rest) ← value fuel depth cs
      match ← skipFiller false rest with
      | ',' :: more => arrayItems fuel depth more (v :: acc)
      | ']' :: more => pure (.arr (v :: acc).reverse, more)
      | _ => none

/-- The pairs of an inline table after its opening brace, up to and past the closing brace. -/
def inlineFields : Nat → Nat → List Char → Fields → Option (Toml × List Char)
  | 0, _, _, _ => none
  | fuel + 1, depth, cs, fs =>
    match skipBlank cs with
    | '}' :: rest => if fs.isEmpty then some (.table [], rest) else none
    | cs => do
      let (keys, rest) ← key? cs
      match skipBlank rest with
      | '=' :: more =>
        let (v, rest') ← value fuel depth (skipBlank more)
        let fs ← Entry.insertDotted v keys fs
        match skipBlank rest' with
        | ',' :: next => inlineFields fuel depth next fs
        | '}' :: next => pure (.table (Entry.fieldsToToml fs), next)
        | _ => none
      | _ => none

end

/-- A header's key up to and past its closing bracket(s) and line end. -/
def headerKey (close : List Char) (cs : List Char) : Option (List String × List Char) := do
  let (path, rest) ← key? (skipBlank cs)
  let rest := skipBlank rest
  if rest.take close.length = close then
    pure (path, ← lineEnd (rest.drop close.length))
  else none

/-- Adds to the table at the end of `path`, with `add` applied to its last part. -/
def atPath (add : String → Fields → Option Fields) (path : List String) (root : Fields) :
    Option Fields :=
  match path.reverse with
  | last :: pre => Entry.descend (add last) pre.reverse root
  | [] => none

/-- The lines of a document from `cs` on, added to `root`; keys go to the table at
`current`. -/
def document : Nat → List Char → Fields → List String → Option Fields
  | 0, _, _, _ => none
  | fuel + 1, cs, root, current =>
    match skipBlank cs with
    | [] => some root
    | '[' :: '[' :: rest => do
      let (path, next) ← headerKey [']', ']'] rest
      let root ← atPath Entry.appendTable path root
      document fuel next root path
    | '[' :: rest => do
      let (path, next) ← headerKey [']'] rest
      let root ← atPath Entry.defineTable path root
      document fuel next root path
    | '#' :: _ | '\n' :: _ | '\r' :: _ => do
      let next ← lineEnd cs
      document fuel next root current
    | line => do
      let (keys, rest) ← key? line
      match skipBlank rest with
      | '=' :: more =>
        let more := skipBlank more
        let (v, rest') ← value (more.length + 1) 0 more
        let next ← lineEnd rest'
        let root ← Entry.descend (Entry.setDotted v keys) current root
        document fuel next root current
      | _ => none

end StakeChain.Toml

namespace StakeChain

/-- The root table of a TOML text, or `none` if the text is not TOML. -/
def Toml.parse? (s : String) : Option Toml :=
  let cs := match s.toList with
    | '\uFEFF' :: rest => rest
    | cs => cs
  (Toml.document (cs.length + 1) cs [] []).map fun root => .table (Entry.fieldsToToml root)

end StakeChain
