import Abacus.Node

namespace Abacus.Node

/-- A place in a tree. There is no node where an optional field was left empty. -/
abbrev Place := Option Node

namespace Place

def form (p : Place) : Option Form := p.map Node.form

def field (p : Place) (name : String) : Except Error Place :=
  match p.bind fun n => (Field.ofName? name).bind n.get? with
  | some q => .ok q
  | none => .error (.noField p.form name)

def follow (p : Place) : List String → Except Error Place
  | [] => .ok p
  | name :: names => do (← p.field name).follow names

def type : Place → Except Error NumberType
  | some n => n.type
  | none => .error (.noType none)

def evaluate (limit : Nat) : Place → Except Error Result
  | some n => n.evaluate limit
  | none => .error (.noValue none)

def applyTo (limit : Nat) (p : Place) (acc : Operand) : Except Error Operand :=
  match p with
  | some n => n.applyTo limit acc
  | none => .error (.noField none "apply")

def text : Place → List Char
  | some n => n.text
  | none => "None".toList

end Place

end Abacus.Node
