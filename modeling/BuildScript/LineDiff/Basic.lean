/-!
# Line differences

A shortest edit script between two texts, line by line. Lines that both texts begin or end with are
set aside. Of the rest, the two ends are searched from both sides until the searches meet, and the
parts before and behind the meeting point are compared in turn.
-/

namespace BuildScript.LineDiff

/-- The lines of a text with their ends. -/
def lines : List Char → List (List Char)
  | [] => []
  | '\r' :: '\n' :: rest => ['\r', '\n'] :: lines rest
  | c :: rest =>
    if c = '\n' || c = '\r' then [c] :: lines rest
    else
      match lines rest with
      | [] => [[c]]
      | line :: more => (c :: line) :: more

inductive Edit where
  | keep
  | delete
  | insert
  deriving DecidableEq, Repr

/-- Adjacent lines with the same fate. -/
structure Block where
  edit : Edit
  lines : List String
  deriving DecidableEq, Repr

/-- How many lines two lists begin with in common. -/
def commonFront : List String → List String → Nat
  | a :: as, b :: bs => if a = b then commonFront as bs + 1 else 0
  | _, _ => 0

def commonBack (as bs : List String) : Nat := commonFront as.reverse bs.reverse

/-- The farthest line of the old text reached on each diagonal. Diagonal `k` has the lines of the
two texts whose numbers differ by `k`. -/
structure Frontier where
  offset : Nat
  reached : Array Nat

namespace Frontier

/-- Room for diagonals up to `limit`; the search starts as if from diagonal 1. -/
def start (limit : Nat) : Frontier := ⟨limit + 1, Array.replicate (2 * limit + 3) 0⟩

def get (f : Frontier) (k : Int) : Nat := f.reached.getD (k + f.offset).toNat 0

def set (f : Frontier) (k : Int) (x : Nat) : Frontier :=
  { f with reached := f.reached.setIfInBounds (k + f.offset).toNat x }

/-- Where a search with `d` edits starts on a diagonal: from the better of its neighbours. -/
def step (f : Frontier) (d : Nat) (k : Int) : Nat :=
  if k = -d || (k ≠ d && f.get (k - 1) < f.get (k + 1)) then f.get (k + 1) else f.get (k - 1) + 1

end Frontier

/-- The diagonals that `d` edits can lead to, in the order of the search. -/
def diagonals (d : Nat) : List Int := (List.range (d + 1)).map fun i => (d : Int) - 2 * (i : Nat)

/-- The lines of both texts where the searches from the two ends meet. -/
abbrev Meeting := Nat × Nat

/-- Goes on from the front with `d` edits; stops with the meeting point. -/
def forward (old new : List String) (d : Nat) (other : Frontier) (f : Frontier) :
    Except Meeting Frontier :=
  let delta : Int := (old.length : Int) - new.length
  (diagonals d).foldlM (fun f k =>
    let x := f.step d k
    let y := ((x : Int) - k).toNat
    let reached := x + commonFront (old.drop x) (new.drop y)
    let f := f.set k reached
    if delta % 2 ≠ 0 && (k - delta).natAbs + 1 ≤ d && old.length ≤ reached + other.get (delta - k)
    then .error (x, y) else .ok f) f

/-- Goes on from the back with `d` edits; stops with the meeting point. -/
def backward (old new : List String) (d : Nat) (other : Frontier) (f : Frontier) :
    Except Meeting Frontier :=
  let delta : Int := (old.length : Int) - new.length
  (diagonals d).foldlM (fun f k =>
    let x := f.step d k
    let y := ((x : Int) - k).toNat
    let common := commonBack (old.take (old.length - x)) (new.take (new.length - y))
    let reached := x + common
    let f := f.set k reached
    if delta % 2 = 0 && (k - delta).natAbs ≤ d && old.length ≤ reached + other.get (delta - k)
    then .error (old.length - reached, new.length - (y + common)) else .ok f) f

/-- Searches with more and more edits. -/
def search (old new : List String) : Nat → Nat → Frontier → Frontier → Option Meeting
  | 0, _, _, _ => none
  | fuel + 1, d, front, back =>
    match forward old new d back front with
    | .error meeting => some meeting
    | .ok front =>
      match backward old new d front back with
      | .error meeting => some meeting
      | .ok back => search old new fuel (d + 1) front back

/-- A point on a shortest edit script that divides it evenly. -/
def meeting? (old new : List String) : Option Meeting :=
  let limit := (old.length + new.length + 1) / 2 + 1
  search old new limit 0 (.start limit) (.start limit)

/-- A block unless it is empty. -/
def block (edit : Edit) (lines : List String) : List Block :=
  if lines.isEmpty then [] else [⟨edit, lines⟩]

def scriptWithin : Nat → List String → List String → List Block
  | 0, old, new => block .delete old ++ block .insert new
  | fuel + 1, old, new =>
    let front := commonFront old new
    let kept := old.take front
    let old := old.drop front
    let new := new.drop front
    let back := commonBack old new
    let keptBehind := old.drop (old.length - back)
    let old := old.take (old.length - back)
    let new := new.take (new.length - back)
    let middle :=
      if old.isEmpty || new.isEmpty then block .delete old ++ block .insert new
      else
        match meeting? old new with
        | some (x, y) =>
          scriptWithin fuel (old.take x) (new.take y) ++ scriptWithin fuel (old.drop x) (new.drop y)
        | none => block .delete old ++ block .insert new
    block .keep kept ++ middle ++ block .keep keptBehind

/-- An edit script between two lists of lines. -/
def script (old new : List String) : List Block :=
  scriptWithin (old.length + new.length + 1) old new

end BuildScript.LineDiff
