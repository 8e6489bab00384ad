/-!
# TOML documents

A TOML value is a string, an integer, a float, a boolean, a date-time, an array or a table.
Floats and date-times are kept as their text: nothing here computes with them.

While a document is read, every table remembers how it came to exist, because that decides
what may still be added to it:

* a table named by a `[header]` is defined once; a second header for it is an error;
* a table created only as the parent of a header is implicit, and a later header may define it;
* a table created by a dotted key (`a.b = 1`) may be extended by further dotted keys and
  receive sub-tables by headers, but never be defined by a header of its own;
* a dotted key passes through implicit and dotted tables and into the last table of an array
  of tables, but the table that receives its value must be one that dotted keys created;
* a value written inline (a scalar, an array, an inline table) is closed;
* an array of tables grows by one table per `[[header]]`, and keys go into its last table.

* `Entry.defineTable`, `Entry.appendTable`, `Entry.setDotted`: the three ways to add to a
  document's table, each `none` when the rules above forbid it; `Entry.insertDotted` adds to an
  inline table, whose dotted keys pass through tables that dotted keys created only;
* `Entry.descend`: applies one of them to the table a path leads to.
-/

set_option autoImplicit false

namespace StakeChain

/-- A TOML value. -/
inductive Toml where
  | str (s : String)
  | int (n : Int)
  | float (text : String)
  | bool (b : Bool)
  | datetime (text : String)
  | arr (items : List Toml)
  | table (fields : List (String × Toml))
  deriving Repr, Inhabited

/-- How a table of a document came to exist. -/
inductive TableOrigin where
  | implicit
  | header
  | dotted
  deriving DecidableEq, Repr

/-- A table entry of a document being read. -/
inductive Entry where
  /-- A value written inline; nothing may be added to it. -/
  | value (v : Toml)
  | table (origin : TableOrigin) (fields : List (String × Entry))
  /-- An array of tables, each a `table` entry, newest last. -/
  | tables (items : List Entry)
  deriving Repr, Inhabited

/-- The entries of one table. -/
abbrev Fields := List (String × Entry)

namespace Entry

mutual

/-- The value an entry stands for. -/
def toToml : Entry → Toml
  | .value v => v
  | .table _ fs => .table (fieldsToToml fs)
  | .tables items => .arr (itemsToToml items)

/-- The values of a table's entries. -/
def fieldsToToml : Fields → List (String × Toml)
  | [] => []
  | (k, e) :: rest => (k, e.toToml) :: fieldsToToml rest

/-- The values of an array of tables. -/
def itemsToToml : List Entry → List Toml
  | [] => []
  | e :: rest => e.toToml :: itemsToToml rest

end

/-- The entry under `k`. -/
def lookup (k : String) (fs : Fields) : Option Entry := (fs.find? (fun p => p.1 == k)).map Prod.snd

/-- The fields with the entry under `k` replaced. -/
def replace (k : String) (e : Entry) (fs : Fields) : Fields :=
  fs.map fun p => if p.1 == k then (k, e) else p

/-- Applies `f` to the fields of the table that `path` leads to: missing tables on the way are
created implicit, and an array of tables is entered at its last table. -/
def descend (f : Fields → Option Fields) : List String → Fields → Option Fields
  | [], fs => f fs
  | k :: rest, fs =>
    match lookup k fs with
    | none => do
      let sub ← descend f rest []
      pure (fs ++ [(k, .table .implicit sub)])
    | some (.table o sub) => do
      let sub ← descend f rest sub
      pure (replace k (.table o sub) fs)
    | some (.tables items) =>
      match items.getLast? with
      | some (.table o sub) => do
        let sub ← descend f rest sub
        pure (replace k (.tables (items.dropLast ++ [.table o sub])) fs)
      | _ => none
    | some (.value _) => none

/-- Defines the table `k` by a header. -/
def defineTable (k : String) (fs : Fields) : Option Fields :=
  match lookup k fs with
  | none => some (fs ++ [(k, .table .header [])])
  | some (.table .implicit sub) => some (replace k (.table .header sub) fs)
  | some _ => none

/-- Appends a new table to the array of tables `k`. -/
def appendTable (k : String) (fs : Fields) : Option Fields :=
  match lookup k fs with
  | none => some (fs ++ [(k, .tables [.table .header []])])
  | some (.tables items) => some (replace k (.tables (items ++ [.table .header []])) fs)
  | some _ => none

/-- Sets the dotted key `keys` to `v` inside an inline table: its last part must be new, and the
tables before it are created by the key or were created by dotted keys. -/
def insertDotted (v : Toml) : List String → Fields → Option Fields
  | [], _ => none
  | [k], fs => if (lookup k fs).isSome then none else some (fs ++ [(k, .value v)])
  | k :: rest, fs =>
    match lookup k fs with
    | none => do
      let sub ← insertDotted v rest []
      pure (fs ++ [(k, .table .dotted sub)])
    | some (.table .dotted sub) => do
      let sub ← insertDotted v rest sub
      pure (replace k (.table .dotted sub) fs)
    | some _ => none

/-- Sets the dotted key `keys` to `v` in a table of a document.  Missing tables on the way are
created as dotted tables; implicit and dotted tables are entered, and an array of tables at its
last table; a table defined by a header or a value stops the key.  The table that receives the
last part must be a dotted one, and the last part must be new there. -/
def setDotted (v : Toml) : List String → Fields → Option Fields
  | [], _ => none
  | k :: rest, fs =>
    match rest with
    | [] => if (lookup k fs).isSome then none else some (fs ++ [(k, .value v)])
    | _ :: more =>
      -- `receives`: the table under `k` is the one that receives the value
      let receives := more.isEmpty
      match lookup k fs with
      | none => do
        let sub ← setDotted v rest []
        pure (fs ++ [(k, .table .dotted sub)])
      | some (.table .dotted sub) => do
        let sub ← setDotted v rest sub
        pure (replace k (.table .dotted sub) fs)
      | some (.table .implicit sub) =>
        if receives then none
        else do
          let sub ← setDotted v rest sub
          pure (replace k (.table .implicit sub) fs)
      | some (.tables items) =>
        if receives then none
        else
          match items.getLast? with
          | some (.table o sub) => do
            let sub ← setDotted v rest sub
            pure (replace k (.tables (items.dropLast ++ [.table o sub])) fs)
          | _ => none
      | some _ => none

end Entry

namespace Toml

/-- The value under `k` of a table. -/
def get? (t : Toml) (k : String) : Option Toml :=
  match t with
  | .table fs => (fs.find? (fun p => p.1 == k)).map Prod.snd
  | _ => none

end Toml

end StakeChain
