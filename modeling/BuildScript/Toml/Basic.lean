/-!
# TOML values

The values of a TOML document, and the one operation that builds it up: changing the table at the
end of a path.
-/

namespace BuildScript

/-- How a table came about. This decides what may be added to it later. -/
inductive TableOrigin where
  /-- By a header of its own. -/
  | header
  /-- As a parent in a header. -/
  | implied
  /-- As a parent in a dotted key. -/
  | dotted
  /-- In braces; nothing is added later. -/
  | inline
  deriving DecidableEq, Repr

inductive Toml where
  | string (text : String)
  | integer (value : Int)
  /-- A number with a fraction or an exponent, as it is written. -/
  | float (text : String)
  | boolean (value : Bool)
  /-- A date, a time or both, as it is written. -/
  | date (text : String)
  /-- An array, written in brackets or (`ofTables`) by headers. -/
  | array (ofTables : Bool) (items : List Toml)
  | table (origin : TableOrigin) (entries : List (String × Toml))

namespace Toml

/-- The entries of a table with its origin. -/
structure Section where
  origin : TableOrigin
  entries : List (String × Toml)

namespace Section

def get? (s : Section) (key : String) : Option Toml :=
  (s.entries.find? fun entry => entry.1 = key).map Prod.snd

/-- Puts a value under a key; an entry that exists keeps its place. -/
def put (s : Section) (key : String) (value : Toml) : Section :=
  if (s.get? key).isSome then
    { s with entries := s.entries.map fun entry => if entry.1 = key then (key, value) else entry }
  else { s with entries := s.entries ++ [(key, value)] }

/-- Dotted keys may not reach into a table that has a header. -/
def allowsDotted (s : Section) : Bool := s.origin = .implied || s.origin = .dotted

end Section

def ofSection (s : Section) : Toml := table s.origin s.entries

/-- Changes the table at the end of a path. Missing tables on the way are made, and an array of
tables stands for its last one. With `dotted` the path comes from a dotted key. -/
def changeAt? (dotted : Bool) (f : Section → Option Section) :
    List String → Section → Option Section
  | [], s => f s
  | key :: rest, s =>
    match s.get? key with
    | none => do
      let made ← changeAt? dotted f rest ⟨if dotted then .dotted else .implied, []⟩
      some (s.put key (ofSection made))
    | some (table origin entries) =>
      if origin = .inline || (dotted && !Section.allowsDotted ⟨origin, entries⟩) then none
      else do
        let changed ← changeAt? dotted f rest ⟨origin, entries⟩
        some (s.put key (ofSection changed))
    | some (array true items) =>
      match items.getLast? with
      | some (table origin entries) => do
        let changed ← changeAt? dotted f rest ⟨origin, entries⟩
        some (s.put key (array true (items.dropLast ++ [ofSection changed])))
      | _ => none
    | some _ => none

/-- Adds a value under a dotted key. No key is given twice, and a table made by dotted keys gets no
other ones. -/
def addValue? (path : List String) (key : String) (value : Toml) (s : Section) : Option Section :=
  changeAt? true (fun target =>
    if decide (target.origin = .dotted) = path.isEmpty || (target.get? key).isSome then none
    else some (target.put key value)) path s

/-- Opens the table of a header; it may exist as a parent of another header. -/
def openTable? (path : List String) (key : String) (s : Section) : Option Section :=
  changeAt? false (fun target =>
    match target.get? key with
    | none => some (target.put key (table .header []))
    | some (table .implied entries) => some (target.put key (table .header entries))
    | some _ => none) path s

/-- Opens a further table of an array of tables. -/
def openElement? (path : List String) (key : String) (s : Section) : Option Section :=
  changeAt? false (fun target =>
    match target.get? key with
    | none => some (target.put key (array true [table .header []]))
    | some (array true items) => some (target.put key (array true (items ++ [table .header []])))
    | some _ => none) path s

end Toml

end BuildScript
