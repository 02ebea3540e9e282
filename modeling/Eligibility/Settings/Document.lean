import Eligibility.Settings.Config
import Eligibility.Settings.Yaml

namespace Eligibility

namespace Yaml

def scalar? : Yaml → Option String
  | .plain s => some s
  | .quoted s => some s
  | _ => none

def digits? (base : Nat) (cs : List Char) : Option Nat :=
  if cs.isEmpty then none
  else (cs.mapM fun c => (hexDigit? c).filter (· < base)).map
    fun ds => ds.foldl (fun n d => base * n + d) 0

/-- A whole number below `2 ^ 64`: decimal without leading zeros, or in base 16, 8 or 2 behind a
mark. Only a plain scalar is a number. -/
def natural? : Yaml → Option Nat
  | .plain s =>
    let cs := match s.toList with
      | '+' :: cs => cs
      | cs => cs
    let n := match cs with
      | '0' :: 'x' :: ds => digits? 16 ds
      | '0' :: 'o' :: ds => digits? 8 ds
      | '0' :: 'b' :: ds => digits? 2 ds
      | ['0'] => some 0
      | '0' :: _ => none
      | ds => digits? 10 ds
    n.filter (· < Nat.pow 2 64)
  | _ => none

def kinds? : Yaml → Option (List Kind)
  | .plain "" => some []
  | .sequence items => items.mapM fun y => y.scalar? >>= Kind.ofName?
  | _ => none

def carry? (y : Yaml) : Option Carry := y.scalar? >>= fun s => Carry.names.lookup s

end Yaml

namespace Config

structure Partly where
  attempts : Option Nat := none
  kinds : Option (List Kind) := none
  carry : Option Carry := none

def Partly.take (s : Partly) (key : Yaml) (value : Yaml) : Option Partly := do
  match ← key.scalar? with
  | "max_attempts" =>
    if s.attempts.isSome then none else return { s with attempts := some (← value.natural?) }
  | "allowed_kinds" =>
    if s.kinds.isSome then none else return { s with kinds := some (← value.kinds?) }
  | "failure_carry" =>
    if s.carry.isSome then none else return { s with carry := some (← value.carry?) }
  | _ => return s

def Partly.build (s : Partly) : Config :=
  ⟨s.attempts.getD default.maxAttempts, s.kinds.getD default.allowedKinds,
    s.carry.getD default.carry⟩

/-- The config of a document; a text that holds nothing leaves the defaults. -/
def ofYaml? : Option Yaml → Option Config
  | none => some default
  | some (.plain "") => some default
  | some (.mapping members) =>
    (members.foldlM (fun (s : Partly) (k, v) => s.take k v) {}).map Partly.build
  | some _ => none

def parse (text : String) : Except ConfigFault Config :=
  match Yaml.parse text >>= ofYaml? with
  | none => .error .yaml
  | some c => c.validated

def ofFile (path : String) : Except FileFault String → Except ConfigFault Config
  | .error f => .error (.file path f)
  | .ok text => parse text

end Config

end Eligibility
