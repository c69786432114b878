import FlowLang.Program.Basic

/-!
# Editing the definitions of a program

* `Program.append` : the definitions of another program behind those of this one.
* `Program.remove?`, `Program.swap?`, `Program.rename?` : edits at an index, which has to be that of
  a definition.  What was resolved before an edit is not touched by it.
-/

namespace FlowLang

/-- The definition with another name. -/
def Definition.rename (name : String) : Definition → Definition
  | workflow w => workflow { w with name }
  | activity a => activity { a with name }

namespace Program

/-- The definitions of both programs. -/
def append (p q : Program) : Program := ⟨p.definitions ++ q.definitions⟩

/-- The program without the definition at this index. -/
def remove? (p : Program) (index : Nat) : Option Program :=
  if index < p.definitions.length then some ⟨p.definitions.eraseIdx index⟩ else none

/-- The program with two definitions in each other's places. -/
def swap? (p : Program) (a b : Nat) : Option Program := do
  let da ← p.definitions[a]?
  let db ← p.definitions[b]?
  return ⟨(p.definitions.set a db).set b da⟩

/-- The program with another name for the definition at this index. -/
def rename? (p : Program) (index : Nat) (name : String) : Option Program := do
  let d ← p.definitions[index]?
  return ⟨p.definitions.set index (d.rename name)⟩

end Program

end FlowLang
