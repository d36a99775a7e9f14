import DynamicDispatch.Script.Operation.Basic

/-!
# Operations on protocols, registries and multimethods

Protocols of the script's own, what implements them, registries apart from the shared one, and
multimethods by name.
-/

namespace DynamicDispatch.Script.Operation

open Argument Eval

/-- What a protocol declares. -/
def protocolInfo (p : Protocol) : Datum :=
  .list [.text p.name, .list (p.methods.map fun s =>
    .list [.text s.name, countDatum s.arity, textList s.params])]

/-- Operations on protocols. -/
def protocols : List (String × Operation) :=
  [("def_protocol", fun args => do
      let label ← text "def_protocol" (argument args 0)
      let name ← text "def_protocol" (argument args 1)
      let methods ← pairs "def_protocol" (Argument.texts "def_protocol") (argument args 2)
      let p : Protocol := ⟨name, methods.map fun (name, params) => ⟨name, params⟩⟩
      Eval.modify fun s => { s with protocols := s.protocols.insert label p }
      return .nil),
    ("proto_info", fun args => do
      return protocolInfo (← protocol (← text "proto_info" (argument args 0)))),
    ("declares", fun args => do
      let p ← protocol (← text "declares" (argument args 0))
      return .bool (p.declares (← text "declares" (argument args 1)))),
    ("implements", fun args => do
      let p ← protocol (← text "implements" (argument args 0))
      return .bool (← implementsProtocol p (argument args 1))),
    ("dispatcher", fun args => do
      let p ← protocol (← text "dispatcher" (argument args 0))
      let method ← text "dispatcher" (argument args 1)
      return funcOrNil (← Action.minting (p.dispatcher method))),
    ("pcall", fun args => do
      let p ← protocol (← text "pcall" (argument args 0))
      let method ← text "pcall" (argument args 1)
      p.call method (← list "pcall" (argument args 2)))]

/-- A registry made of parts, or with all primitive types' methods. -/
def newRegistry : Datum → Eval (Registry Expr)
  | .nil => Action.minting Registry.primitive
  | parts => do
    (← Argument.texts "reg_new" parts).foldlM (fun r part =>
      match Registry.parts.lookup part with
      | some families => Action.minting (r.installPart families)
      | none => malformed "reg_new" "no such part") .empty

/-- Operations on registries of the script's own. -/
def registries : List (String × Operation) :=
  [("reg_new", fun args => do
      nameRegistry (← text "reg_new" (argument args 0)) (← newRegistry (argument args 1))
      return .nil),
    ("reg_resolve", fun args => do
      let r ← registry (← text "reg_resolve" (argument args 0))
      return funcOrNil (r.resolve (argument args 1) (← text "reg_resolve" (argument args 2))))]

/-- Operations on registries of the script's own, for a type key. -/
def registryKeys : List (String × (TypeKey → Operation)) :=
  [("reg_register", fun key args => do
      let name ← text "reg_register" (argument args 0)
      let r ← registry name
      let method ← text "reg_register" (argument args 1)
      nameRegistry name (r.register key method (← func "reg_register" (argument args 2)))
      return .nil),
    ("reg_extend", fun key args => do
      let name ← text "reg_extend" (argument args 0)
      let r ← registry name
      let functions ← funcs "reg_extend" (argument args 1)
      nameRegistry name (← Action.minting (r.extend key functions))
      return .nil),
    ("reg_lookup", fun key args => do
      let r ← registry (← text "reg_lookup" (argument args 0))
      return funcOrNil (r.lookup key (← text "reg_lookup" (argument args 1)))),
    ("reg_implements", fun key args => do
      let r ← registry (← text "reg_implements" (argument args 0))
      let p ← protocol (← text "reg_implements" (argument args 1))
      return .bool (r.implements p key))]

/-- Operations on multimethods. -/
def multimethods : List (String × Operation) :=
  [("def_multi", fun args => do
      let name ← text "def_multi" (argument args 0)
      let m ← Multimethod.new (← func "def_multi" (argument args 1))
      Eval.modify fun s => { s with multimethods := s.multimethods.insert name m }
      return .nil),
    ("def_method", fun args => do
      let m ← multimethod (← text "def_method" (argument args 0))
      m.define (argument args 1) (← func "def_method" (argument args 2))
      return .text ((← m.methods).inspect m.dispatch)),
    ("multi_call", fun args => do
      let m ← multimethod (← text "multi_call" (argument args 0))
      m.call (← list "multi_call" (argument args 1))),
    ("multi_fn", fun args => do
      let m ← multimethod (← text "multi_fn" (argument args 0))
      return .func (← Action.minting m.toFunc))]

end DynamicDispatch.Script.Operation
