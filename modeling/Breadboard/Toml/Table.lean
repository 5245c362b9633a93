import Breadboard.Number.Binary64

/-!
Tables of a TOML document. Every table is defined once, and how it came to be
decides what may still be added to it.
-/

namespace Breadboard.Toml

inductive TableOrigin where
  | header
  | implied
  | dotted
  /-- As a value; such a table is closed. -/
  | inline
  deriving DecidableEq

inductive Item where
  | text (value : String)
  | integer (value : Int64)
  | float (value : Binary64)
  | bool (value : Bool)
  | moment
  | list (items : List Item)
  | table (origin : TableOrigin) (fields : List (String × Item))
  | tables (entries : List (List (String × Item)))
  deriving Inhabited

abbrev Fields := List (String × Item)

structure Table where
  origin : TableOrigin
  fields : Fields

namespace Table

def document : Table := ⟨.header, []⟩

def add (table : Table) (name : String) (item : Item) : Table :=
  { table with fields := table.fields ++ [(name, item)] }

def replace (table : Table) (name : String) (item : Item) : Table :=
  { table with
    fields := table.fields.map fun entry => if entry.1 = name then (name, item) else entry }

/-- Edits the table at the end of a path, and makes the tables that are missing on the
way. A repeated header stands for its last table. With `byKey` the path is part of a
key, which reaches no table that has a header of its own. -/
def alter (byKey : Bool) (edit : Table → Option Table) : List String → Table → Option Table
  | [], table => edit table
  | name :: path, table =>
      match table.fields.lookup name with
      | none => do
          let inner ← alter byKey edit path ⟨if byKey then .dotted else .implied, []⟩
          some (table.add name (.table inner.origin inner.fields))
      | some (.table origin fields) =>
          if origin = .inline || (byKey && origin = .header) then none
          else do
            let inner ← alter byKey edit path ⟨origin, fields⟩
            some (table.replace name (.table inner.origin inner.fields))
      | some (.tables (last :: earlier)) => do
          let inner ← alter byKey edit path ⟨.header, last⟩
          some (table.replace name (.tables (inner.fields :: earlier)))
      | some _ => none

def define? (name : String) (item : Item) (table : Table) : Option Table :=
  if (table.fields.lookup name).isSome then none else some (table.add name item)

/-- Sets a key with dots. The table at the end of its path must be one that keys made. -/
def assign? (path : List String) (name : String) (item : Item) (table : Table) : Option Table :=
  alter true
    (fun inner =>
      if decide (inner.origin = .dotted) = path.isEmpty then none else inner.define? name item)
    path table

def open? (path : List String) (name : String) (table : Table) : Option Table :=
  alter false
    (fun outer =>
      match outer.fields.lookup name with
      | none => some (outer.add name (.table .header []))
      | some (.table .implied fields) => some (outer.replace name (.table .header fields))
      | some _ => none)
    path table

def openNext? (path : List String) (name : String) (table : Table) : Option Table :=
  alter false
    (fun outer =>
      match outer.fields.lookup name with
      | none => some (outer.add name (.tables [[]]))
      | some (.tables entries) => some (outer.replace name (.tables ([] :: entries)))
      | some _ => none)
    path table

end Table

end Breadboard.Toml
