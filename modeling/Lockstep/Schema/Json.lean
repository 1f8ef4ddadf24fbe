import Lockstep.Format.Json
import Lockstep.Schema.Value

/-! # Values in JSON

The JSON text of values. A value is an object whose only field is named for what it is, except for the
two that have nothing to tell. The texts also put values in an order.
-/

namespace Lockstep

open JsonText

def ScopeId.json : ScopeId → String
  | global => quote "global"
  | map id => toString id.toNat

def EntityRef.json : EntityRef → String
  | spawned id => tagged "spawned" (toString id.toNat)
  | nested parent id => tagged "nested" (array [toString parent.toNat, toString id.toNat])
  | inComponent owner slot id =>
    tagged "component" (array [toString owner.toNat, toString slot.toNat, toString id.toNat])

namespace Value

def json : Value → String
  | null => "null"
  | unit => quote "unit"
  | scalar v => tagged v.kind.name v.json
  | enumeration type d => tagged "enum" (array [quote type, quote (toString d.toInt)])
  | record type fields => tagged "record" (array [quote type, array (jsonEach fields)])
  | list items => tagged "list" (array (jsonEach items))
  | entity type reference => tagged "entity" (array [quote type, reference.json])
  | session type id => tagged "session" (array [quote type, toString id.toNat])
  | definition type id => tagged "def" (array [quote type, toString id.toNat])
  | scope s => tagged "scope" s.json
  | object type payload => tagged "object" (array [quote type, payload.json])
where
  /-- The texts of values. -/
  jsonEach : List Value → List String
    | [] => []
    | value :: values => value.json :: jsonEach values

end Value

end Lockstep
