import BuildScript.LineDiff.Basic

/-!
# Readable differences

Moves the blocks of an edit script up and down between lines that they repeat, so that they join
where they can and otherwise stand as far down as possible, and writes the script line by line.
-/

namespace BuildScript.LineDiff

/-- A script at one of its blocks. The blocks before it have the nearest first. -/
structure Position where
  before : List Block
  block : Block
  after : List Block

namespace Position

/-- Adds kept lines in front of the blocks that follow. -/
def keepAfter (lines : List String) : List Block → List Block
  | ⟨.keep, more⟩ :: rest => ⟨.keep, lines ++ more⟩ :: rest
  | after => ⟨.keep, lines⟩ :: after

/-- Adds kept lines behind the blocks in front. -/
def keepBefore (lines : List String) : List Block → List Block
  | ⟨.keep, more⟩ :: rest => ⟨.keep, more ++ lines⟩ :: rest
  | before => ⟨.keep, lines⟩ :: before

/-- Moves inserted lines up over kept lines that they end with. -/
def slideUp? (kept : List String) (before : List Block) (p : Position) : Option Position :=
  let count := commonBack kept p.block.lines
  if count = 0 then none
  else
    let moved := kept.drop (kept.length - count)
    some {
      before := LineDiff.block .keep (kept.take (kept.length - count)) ++ before
      block := ⟨.insert, moved ++ p.block.lines.take (p.block.lines.length - count)⟩
      after := keepAfter moved p.after }

/-- Moves inserted lines down over kept lines that they begin with. -/
def slideDown? (kept : List String) (after : List Block) (p : Position) : Option Position :=
  let count := commonFront kept p.block.lines
  if count = 0 then none
  else
    let moved := kept.take count
    some {
      before := keepBefore moved p.before
      block := ⟨.insert, p.block.lines.drop count ++ moved⟩
      after := LineDiff.block .keep (kept.drop count) ++ after }

/-- One step up: past kept lines, past a block of the other kind, or into one of the same kind. -/
def up? (p : Position) : Option Position :=
  match p.before with
  | [] => none
  | ⟨edit, lines⟩ :: before =>
    match p.block.edit, edit with
    | .keep, _ => none
    | .insert, .keep => p.slideUp? lines before
    | .delete, .keep => none
    | own, other =>
      if own = other then some { p with before, block := ⟨own, lines ++ p.block.lines⟩ }
      else some { p with before, after := ⟨other, lines⟩ :: p.after }

/-- One step down. -/
def down? (p : Position) : Option Position :=
  match p.after with
  | [] => none
  | ⟨edit, lines⟩ :: after =>
    match p.block.edit, edit with
    | .keep, _ => none
    | .insert, .keep => p.slideDown? lines after
    | .delete, .keep => none
    | own, other =>
      if own = other then some { p with block := ⟨own, p.block.lines ++ lines⟩, after }
      else some { p with before := ⟨other, lines⟩ :: p.before, after }

/-- Steps as long as there is one. -/
def exhaust (step? : Position → Option Position) : Nat → Position → Position
  | 0, p => p
  | fuel + 1, p =>
    match step? p with
    | some p => exhaust step? fuel p
    | none => p

end Position

/-- More steps than a block can take in one direction. -/
def lineCount (script : List Block) : Nat := (script.flatMap Block.lines).length + script.length

/-- Moves each block of one kind up and then down. -/
def settle (edit : Edit) (size : Nat) : Nat → List Block → List Block → List Block
  | 0, before, after => before.reverse ++ after
  | _, before, [] => before.reverse
  | fuel + 1, before, block :: after =>
    if block.edit = edit then
      let p := Position.exhaust Position.up? size ⟨before, block, after⟩
      let p := Position.exhaust Position.down? size p
      settle edit size fuel (p.block :: p.before) p.after
    else settle edit size fuel (block :: before) after

def compact (script : List Block) : List Block :=
  let size := 2 * lineCount script + 2
  settle .insert size size [] (settle .delete size size [] script)

/-- A line with its mark; a missing line end is added. -/
def markedLine (mark : String) (line : String) : String :=
  let isEnded := line.toList.getLast?.any fun c => c = '\n' || c = '\r'
  mark ++ line ++ if isEnded then "" else "\n"

def marked (mark : String) (lines : List String) : String :=
  String.join (lines.map (markedLine mark))

/-- Writes a script. Of adjacent changes the deleted lines come first. -/
def render : List Block → (deleted inserted : List String) → String
  | [], deleted, inserted => marked "  -" deleted ++ marked "  +" inserted
  | ⟨.keep, lines⟩ :: rest, deleted, inserted =>
    marked "  -" deleted ++ marked "  +" inserted ++ marked "   " lines ++ render rest [] []
  | ⟨.delete, lines⟩ :: rest, deleted, inserted => render rest (deleted ++ lines) inserted
  | ⟨.insert, lines⟩ :: rest, deleted, inserted => render rest deleted (inserted ++ lines)

/-- The differences between two texts, with all lines of both. -/
def report (old new : String) : String :=
  let split (text : String) := (lines text.toList).map String.ofList
  render (compact (script (split old) (split new))) [] []

end BuildScript.LineDiff
