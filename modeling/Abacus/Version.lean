import Abacus.Manifest.Reading

namespace Abacus.Version

open Manifest

def current : String := "0.3.0"

inductive Error
  | manifest (e : Manifest.Error)
  | notTable (kind : String)
  | unwritable
  deriving DecidableEq

namespace Error

def message (source : List Char) : Error → String
  | manifest e => e.message (unifyLines source)
  | notTable kind => s!"'{kind}' object has no attribute 'get'"
  | unwritable => Numeral.Fault.unwritable.message

end Error

def project (t : Table) : Except Error Table :=
  match t.get? "project".toList with
  | some (.table p) => .ok p
  | none => .ok .nil
  | some (.string _) => .error (.notTable "str")
  | some (.integer _) => .error (.notTable "int")

def ofProject (p : Table) : Except Error String :=
  match p.get? "name".toList, p.get? "version".toList with
  | some (.string name), some v =>
    if name ≠ "calculator".toList then .ok "0.0.0"
    else if v.isWritable then .ok (.ofList v.text) else .error .unwritable
  | _, _ => .ok "0.0.0"

/-- The version of the installed package, else that in the manifest, if there is one. -/
def find (installed : Option String) (source : Option (List Char)) : Except Error String :=
  match installed, source with
  | some v, _ => .ok v
  | none, none => .ok "0.0.0"
  | none, some s => do ofProject (← project (← (Manifest.read s).mapError .manifest))

end Abacus.Version
