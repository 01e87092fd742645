import MultimodalDb.Generic.MmapStore

/-!
# The store beneath an edge layer

An edge layer holds no record. It passes the operations on records to the store beneath it, and asks
that store which ids have one.
-/

namespace MultimodalDb

/-- The operations an edge layer passes on. -/
class RecordStore (S : Type) (R Id V : outParam Type) where
  get : S → Id → Except Panic (Option R)
  insert : R → Method S (InsertError Id) Unit
  replace : R → Method S (ReplaceError Id) Unit
  update : Id → V → Method S (NotFound Id) Unit
  delete : Id → Method S (DeleteError Id) Unit
  compact : Method S DurabilityError CompactionReport

inductive LinkOutcome where
  | linked
  | alreadyLinked
  deriving DecidableEq

instance {R Id IV SV : Type} [StoredRecord R Id IV SV] [MmapFieldValue Id] [MmapFieldValue SV]
    [DecidableEq Id] [DecidableEq IV] [Serde R] [Serde Id] :
    RecordStore (GenericMmapStore R Id IV SV) R Id SV where
  get := GenericMmapStore.get
  insert := GenericMmapStore.insert
  replace := GenericMmapStore.replace
  update := GenericMmapStore.update
  delete := GenericMmapStore.delete
  compact := GenericMmapStore.compact

/-! ## Errors -/

/-- The durability error of a call, or `none` when the store refused it. -/
def InsertError.durability? {K : Type} : InsertError K → Option DurabilityError
  | .duplicate _ => none
  | .durability e => some e

def ReplaceError.durability? {K : Type} : ReplaceError K → Option DurabilityError
  | .notFound _ => none
  | .durability e => some e

def DeleteError.durability? {K : Type} : DeleteError K → Option DurabilityError
  | .notFound _ => none
  | .durability e => some e

namespace EdgeLayer

inductive LinkError (Id : Type) where
  | invalidLabel (label : String)
  | unknownRecord (id : Id)
  | selfLoop (id : Id)
  | durability (e : DurabilityError)
  deriving DecidableEq

def LinkError.durability? {Id : Type} : LinkError Id → Option DurabilityError
  | .durability e => some e
  | _ => none

end EdgeLayer

/-- A label is part of a file name: one to 64 letters, digits, `_` or `-`, not starting with `-`. -/
def validRelationLabel (label : String) : Bool :=
  let bytes := label.toUTF8.data.toList
  !bytes.isEmpty && bytes.length ≤ 64 && bytes.head? ≠ some 45 &&
    bytes.all fun c =>
      (48 ≤ c && c ≤ 57) || (65 ≤ c && c ≤ 90) || (97 ≤ c && c ≤ 122) || c = 95 || c = 45

end MultimodalDb
