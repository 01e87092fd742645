import MultimodalDb.Generic.RecordStore
import MultimodalDb.Lib.BucketIndex
import MultimodalDb.Lib.Packed
import Mathlib.Data.Finset.Sort
import Mathlib.Data.Prod.Lex

/-!
# The index layers

Each layer keeps one index in memory over the store beneath it and passes every operation through:
the ids under each value of a field, a column of a field's values, the ids under each name, the
children of each parent, the ids in the order of a field. A layer changes its index after the store
beneath has accepted the operation, from the record as it was read before and the record as it is
written.

An update is taken by the first layer from above that owns the field; only a sorted index above it
whose marker is the field's own is kept in step. Nothing is passed down from there: a column patches
the record on its way up.
-/

namespace MultimodalDb

/-- What the layers read of a record. Several fields of one kind are told apart by their markers,
and one type has the values of all of them. -/
class RecordFields (R : Type) (M Id IV SV P Key : outParam Type) where
  id : R → Id
  indexedValue : M → R → IV
  scannableValue : M → R → SV
  setScannableValue : M → SV → R → R
  indexKeys : R → List String
  /-- The one normalization rule of names, at building and at asking. -/
  normalize : String → String
  parentId : M → R → Option P
  orderKey : M → R → Key
  id_set : ∀ m v r, id (setScannableValue m v r) = id r
  value_set : ∀ m v r, scannableValue m (setScannableValue m v r) = v
  set_set : ∀ m v w r, setScannableValue m v (setScannableValue m w r) = setScannableValue m v r
  set_value : ∀ m r, setScannableValue m (scannableValue m r) r = r

namespace IndexLayers

open RecordFields hiding id
open RecordFields renaming id → idOf

/-- A stack of layers. At its base are the records, in memory or in the durable core, which owns a
field. -/
inductive Stack (R M Id IV SV P Key : Type) [DecidableEq Id] where
  | base (own : Option M) (records : AList (fun _ : Id => R))
  | indexed (m : M) (index : BucketIndex IV Id) (inner : Stack R M Id IV SV P Key)
  | scanned (m : M) (cache : Packed Id SV) (inner : Stack R M Id IV SV P Key)
  | nameIndex (index : BucketIndex String Id) (inner : Stack R M Id IV SV P Key)
  | reversed (m : M) (childrenOf : BucketIndex P Id) (inner : Stack R M Id IV SV P Key)
  | ordered (m : M) (index : Finset (Key ×ₗ Id)) (inner : Stack R M Id IV SV P Key)

/-- The kinds of layers. -/
inductive Layer (M : Type) where
  | indexed (m : M)
  | scanned (m : M)
  | nameIndex
  | reversed (m : M)
  | ordered (m : M)
  deriving DecidableEq

variable {R M Id IV SV P Key : Type} [LinearOrder Id] [LinearOrder Key] [DecidableEq M]
  [DecidableEq IV] [DecidableEq P]
variable [RecordFields R M Id IV SV P Key]

/-! ## Reading -/

def get : Stack R M Id IV SV P Key → Id → Option R
  | .base _ records, key => records.lookup key
  | .indexed _ _ inner, key => get inner key
  | .scanned m cache inner, key =>
    (get inner key).map fun record => (cache.value key).elim record fun v =>
      setScannableValue m v record
  | .nameIndex _ inner, key => get inner key
  | .reversed _ _ inner, key => get inner key
  | .ordered _ _ inner, key => get inner key

def allIds : Stack R M Id IV SV P Key → List Id
  | .base _ records => records.keys
  | .indexed _ _ inner => allIds inner
  | .scanned _ _ inner => allIds inner
  | .nameIndex _ inner => allIds inner
  | .reversed _ _ inner => allIds inner
  | .ordered _ _ inner => allIds inner

/-- A page of a sorted index: at most `limit` ids, from just past the cursor. -/
def pageBy (index : Finset (Key ×ₗ Id)) (after : Option (Key × Id)) (limit : Nat) : List Id :=
  let range := match after with
    | none => index
    | some cursor => index.filter (fun pair => toLex cursor < pair)
  ((range.sort (· ≤ ·)).take limit).map fun pair => (ofLex pair).2

def filterEq (index : BucketIndex IV Id) (value : IV) : List Id := index.bucket value

def scan (cache : Packed Id SV) : List SV := cache.cells

def children (childrenOf : BucketIndex P Id) (parent : P) : List Id := childrenOf.bucket parent

/-! ## Building -/

def Base.new (records : List R) : AList (fun _ : Id => R) :=
  records.foldl (fun m record => m.insert (idOf record) record) ∅

def Indexed.new (m : M) (inner : Stack R M Id IV SV P Key) (records : List R) :
    Stack R M Id IV SV P Key :=
  .indexed m
    (records.foldl (fun index record => index.push (indexedValue m record) (idOf record)) ∅) inner

def Scanned.new (m : M) (inner : Stack R M Id IV SV P Key) (records : List R) :
    Stack R M Id IV SV P Key :=
  .scanned m (records.foldl (fun cache record => cache.push (idOf record) (scannableValue m record))
    .empty) inner

/-- The normalized keys of a record. -/
def normalKeys (record : R) : List String := (indexKeys record).map (normalize R)

def findByName (index : BucketIndex String Id) (name : String) : List Id :=
  index.bucket (normalize R name)

/-- File a record under its keys. -/
def addKeys (index : BucketIndex String Id) (keys : List String) (key : Id) :
    BucketIndex String Id :=
  keys.foldl (fun index name => index.add name key) index

def NameIndex.new (inner : Stack R M Id IV SV P Key) : Stack R M Id IV SV P Key :=
  .nameIndex ((allIds inner).foldl (fun index key =>
    (get inner key).elim index fun record => addKeys index (normalKeys record) key) ∅) inner

/-- A child joins the list of its parent, if it has one. -/
def join (childrenOf : BucketIndex P Id) (parent : Option P) (key : Id) : BucketIndex P Id :=
  parent.elim childrenOf fun parent => childrenOf.push parent key

def leave (childrenOf : BucketIndex P Id) (parent : Option P) (key : Id) : BucketIndex P Id :=
  parent.elim childrenOf fun parent => childrenOf.drop parent key

def Reversed.new (m : M) (inner : Stack R M Id IV SV P Key) (children : List R) :
    Stack R M Id IV SV P Key :=
  .reversed m (children.foldl (fun childrenOf child =>
    join childrenOf (parentId m child) (idOf child)) ∅) inner

def Ordered.new (m : M) (inner : Stack R M Id IV SV P Key) : Stack R M Id IV SV P Key :=
  .ordered m ((allIds inner).foldl (fun index key =>
    (get inner key).elim index fun record => insert (toLex (orderKey m record, key)) index) ∅) inner

def Layer.wrap (records : List R) (layer : Layer M) (inner : Stack R M Id IV SV P Key) :
    Stack R M Id IV SV P Key :=
  match layer with
  | .indexed m => Indexed.new m inner records
  | .scanned m => Scanned.new m inner records
  | .nameIndex => NameIndex.new inner
  | .reversed m => Reversed.new m inner records
  | .ordered m => Ordered.new m inner

/-- A stack of these layers, the first at the top, built from records. -/
def build (own : Option M) (layers : List (Layer M)) (records : List R) :
    Stack R M Id IV SV P Key :=
  layers.foldr (Layer.wrap records) (.base own (Base.new records))

/-! ## Writing -/

/-- A call on a stack: an error or nothing, and the stack after it. -/
abbrev Result (R M Id IV SV P Key ε : Type) [DecidableEq Id] : Type :=
  Except ε Unit × Stack R M Id IV SV P Key

/-- A layer after the call beneath it: as it was when that failed, and changed when it succeeded. -/
def Result.over {ε : Type} (r : Result R M Id IV SV P Key ε)
    (same changed : Stack R M Id IV SV P Key → Stack R M Id IV SV P Key) :
    Result R M Id IV SV P Key ε :=
  match r with
  | (.error e, inner) => (.error e, same inner)
  | (.ok (), inner) => (.ok (), changed inner)

section Writing

-- What the durable core's files do to a write of a record that it would accept.
variable (fault : Option DurabilityError)

def insert (record : R) : Stack R M Id IV SV P Key → Result R M Id IV SV P Key (InsertError Id)
  | .base own records =>
    if idOf record ∈ records then (.error (.duplicate (idOf record)), .base own records)
    else match fault with
      | some e => (.error (.durability e), .base own records)
      | none => (.ok (), .base own (records.insert (idOf record) record))
  | .indexed m index inner => (insert record inner).over (.indexed m index)
      (.indexed m (index.push (indexedValue m record) (idOf record)))
  | .scanned m cache inner => (insert record inner).over (.scanned m cache)
      (.scanned m (cache.push (idOf record) (scannableValue m record)))
  | .nameIndex index inner => (insert record inner).over (.nameIndex index)
      (.nameIndex (addKeys index (normalKeys record) (idOf record)))
  | .reversed m childrenOf inner => (insert record inner).over (.reversed m childrenOf)
      (.reversed m (join childrenOf (parentId m record) (idOf record)))
  | .ordered m index inner => (insert record inner).over (.ordered m index)
      (.ordered m (Insert.insert (toLex (orderKey m record, idOf record)) index))

def delete (key : Id) : Stack R M Id IV SV P Key → Result R M Id IV SV P Key (DeleteError Id)
  | .base own records =>
    if key ∉ records then (.error (.notFound key), .base own records)
    else match fault with
      | some e => (.error (.durability e), .base own records)
      | none => (.ok (), .base own (records.erase key))
  | .indexed m index inner =>
    match get inner key with
    | none => (.error (.notFound key), .indexed m index inner)
    | some old => (delete key inner).over (.indexed m index) (.indexed m
        (index.drop (indexedValue m old) key))
  | .scanned m cache inner =>
    (delete key inner).over (.scanned m cache) (.scanned m (cache.remove key))
  | .nameIndex index inner =>
    match get inner key with
    | none => (.error (.notFound key), .nameIndex index inner)
    | some old => (delete key inner).over (.nameIndex index)
        (.nameIndex ((normalKeys old).foldl (fun index name => index.drop name key) index))
  | .reversed m childrenOf inner =>
    match get inner key with
    | none => (.error (.notFound key), .reversed m childrenOf inner)
    | some old => (delete key inner).over (.reversed m childrenOf)
        (.reversed m (leave childrenOf (parentId m old) key))
  | .ordered m index inner =>
    match get inner key with
    | none => (.error (.notFound key), .ordered m index inner)
    | some old => (delete key inner).over (.ordered m index) (.ordered m
        (index.erase (toLex (orderKey m old, key))))

def replace (record : R) : Stack R M Id IV SV P Key → Result R M Id IV SV P Key (ReplaceError Id)
  | .base own records =>
    if idOf record ∉ records then (.error (.notFound (idOf record)), .base own records)
    else match fault with
      | some e => (.error (.durability e), .base own records)
      | none => (.ok (), .base own (records.insert (idOf record) record))
  | .indexed m index inner =>
    match get inner (idOf record) with
    | none => (.error (.notFound (idOf record)), .indexed m index inner)
    | some old => (replace record inner).over (.indexed m index)
        (.indexed m (if indexedValue m old = indexedValue m record then index
          else (index.drop (indexedValue m old) (idOf record)).push (indexedValue m record)
            (idOf record)))
  | .scanned m cache inner =>
    match replace record inner with
    | (.error e, inner) => (.error e, .scanned m cache inner)
    | (.ok (), inner) =>
      if (cache.value (idOf record)).isNone
        then (.error (.notFound (idOf record)), .scanned m cache inner)
      else (.ok (), .scanned m (cache.set (idOf record) (scannableValue m record)) inner)
  | .nameIndex index inner =>
    match get inner (idOf record) with
    | none => (.error (.notFound (idOf record)), .nameIndex index inner)
    | some old => (replace record inner).over (.nameIndex index)
        (.nameIndex (addKeys (((normalKeys old).filter (· ∉ normalKeys record)).foldl
          (fun index name => index.drop name (idOf record)) index) (normalKeys record)
            (idOf record)))
  | .reversed m childrenOf inner =>
    match get inner (idOf record) with
    | none => (.error (.notFound (idOf record)), .reversed m childrenOf inner)
    | some old => (replace record inner).over (.reversed m childrenOf)
        (.reversed m (if parentId m old = parentId m record then childrenOf
          else join (leave childrenOf (parentId m old) (idOf record)) (parentId m record)
            (idOf record)))
  | .ordered m index inner =>
    match get inner (idOf record) with
    | none => (.error (.notFound (idOf record)), .ordered m index inner)
    | some old => (replace record inner).over (.ordered m index)
        (.ordered m (Insert.insert (toLex (orderKey m record, idOf record))
          (index.erase (toLex (orderKey m old, idOf record)))))

end Writing

/-- An update of the field `field`. A layer that keeps an index by value has no such method, and
nothing beneath one is updated through it. -/
def update (field : M) (value : SV) (key : Id) :
  Stack R M Id IV SV P Key → Result R M Id IV SV P Key (NotFound Id)
  | .base own records =>
    match records.lookup key with
    | none => (.error ⟨key⟩, .base own records)
    | some record =>
      if own = some field then (.ok (),
        .base own (records.insert key (setScannableValue field value record)))
      else (.error ⟨key⟩, .base own records)
  | .indexed m index inner => (.error ⟨key⟩, .indexed m index inner)
  | .scanned m cache inner =>
    if m = field then
      if (cache.value key).isNone then (.error ⟨key⟩, .scanned m cache inner)
      else (.ok (), .scanned m (cache.set key value) inner)
    else (update field value key inner).over (.scanned m cache) (.scanned m cache)
  | .nameIndex index inner =>
    (update field value key inner).over (.nameIndex index) (.nameIndex index)
  | .reversed m childrenOf inner =>
    (update field value key inner).over (.reversed m childrenOf) (.reversed m childrenOf)
  | .ordered m index inner =>
    match if m = field then get inner key else none with
    | none => (update field value key inner).over (.ordered m index) (.ordered m index)
    | some old => (update field value key inner).over (.ordered m index) fun inner =>
        let left := index.erase (toLex (orderKey m old, key))
        .ordered m ((get inner key).elim left fun record =>
          Insert.insert (toLex (orderKey m record, key)) left) inner

end IndexLayers

end MultimodalDb
