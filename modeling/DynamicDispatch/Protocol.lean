import DynamicDispatch.Method

/-!
# Protocols

A protocol is a named list of method signatures that types implement independently of each other.
The standard protocols group the standard methods.
-/

namespace DynamicDispatch

/-- The signature of a method. Its last parameter is the subject that decides the implementation. -/
structure Signature where
  name : String
  params : List String
  deriving DecidableEq, Repr

/-- The number of parameters. -/
def Signature.arity (s : Signature) : Nat := s.params.length

/-- A named list of signatures. -/
structure Protocol where
  name : String
  methods : List Signature
  deriving DecidableEq, Repr

namespace Protocol

/-- The first signature of a name. -/
def method? (p : Protocol) (name : String) : Option Signature := p.methods.find? (·.name == name)

/-- Whether the protocol declares a method. -/
def declares (p : Protocol) (method : String) : Bool := (p.method? method).isSome

/-- A protocol of standard methods. -/
def ofMethods (name : String) (methods : List Method) : Protocol :=
  ⟨name, methods.map fun m => ⟨m.name, m.params⟩⟩

end Protocol

/-- The standard protocol that declares a standard method. -/
def Method.protocol : Method → Protocol
  | .render => .ofMethods "IShow" [.render]
  | .clone | .shallowClone => .ofMethods "IClone" [.clone, .shallowClone]
  | .count => .ofMethods "ICount" [.count]
  | .first | .rest => .ofMethods "ISeq" [.first, .rest]
  | .conj => .ofMethods "ICollection" [.conj]
  | .iterator => .ofMethods "IIterator" [.iterator]
  | .keys => .ofMethods "IKeyed" [.keys]
  | .assoc | .dissoc => .ofMethods "IAssociative" [.assoc, .dissoc]
  | .get => .ofMethods "ILookup" [.get]
  | .empty | .append => .ofMethods "IMonoid" [.empty, .append]
  | .foldl | .foldr => .ofMethods "IFold" [.foldl, .foldr]
  | .map => .ofMethods "IFunctor" [.map]
  | .cata => .ofMethods "ICata" [.cata]
  | .bimap => .ofMethods "IBifunctor" [.bimap]
  | .ap => .ofMethods "IApply" [.ap]
  | .of | .flatten => .ofMethods "IMonadic" [.of, .flatten]

/-- The standard protocols. -/
def Protocol.standard : List Protocol :=
  [Method.render, .clone, .count, .first, .conj, .iterator, .keys, .assoc, .get, .empty, .foldl,
    .map, .cata, .bimap, .ap, .of].map Method.protocol

/-- A standard method is declared, with its own parameters, by its protocol. -/
theorem Method.method?_protocol (m : Method) :
    m.protocol.method? m.name = some ⟨m.name, m.params⟩ := by
  cases m <;> decide

end DynamicDispatch
