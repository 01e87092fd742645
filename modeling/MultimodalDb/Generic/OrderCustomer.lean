import MultimodalDb.Generic.Traits

/-!
# Orders

The reference record type of the generic store, the one its own tests run on: indexed by status,
scannable by amount.
-/

namespace MultimodalDb

inductive OrderStatus where
  | pending
  | shipped
  | delivered
  | cancelled
  | refunded
  deriving DecidableEq

@[ext] structure Order where
  id : Uuid
  customerId : Uuid
  amountCents : Int64
  status : OrderStatus
  createdAtUnixMs : Int64
  discountCents : Int64
  deriving DecidableEq

namespace Order

instance : Serde OrderStatus :=
  Codec.enumIndex [.pending, .shipped, .delivered, .cancelled, .refunded]
    (by rintro (_ | _) <;> decide) (by decide) (by decide)

instance : Serde Order :=
  Codec.refine
    (fun o => (o.id, o.customerId, o.amountCents, o.status, o.createdAtUnixMs, o.discountCents))
    (fun (id, customer, amount, status, created, discount) =>
      some ⟨id, customer, amount, status, created, discount⟩)
    (by
      rintro o ⟨id, customer, amount, status, created, discount⟩
      simp only [Option.some.injEq, Prod.mk.injEq, Order.ext_iff]
      constructor
      · rintro ⟨rfl, rfl, rfl, rfl, rfl, rfl⟩
        exact ⟨rfl, rfl, rfl, rfl, rfl, rfl⟩
      · rintro ⟨rfl, rfl, rfl, rfl, rfl, rfl⟩
        exact ⟨rfl, rfl, rfl, rfl, rfl, rfl⟩)

instance : StoredRecord Order Uuid OrderStatus Int64 where
  id := Order.id
  indexedValue := Order.status
  scannableValue := Order.amountCents
  setScannableValue v o := { o with amountCents := v }
  SCHEMA_TAG := "order_customer::Order"
  id_set _ _ := rfl
  indexedValue_set _ _ := rfl
  scannableValue_set _ _ := rfl
  set_set _ _ _ := rfl
  set_scannableValue _ := rfl

/-- An order of a given id and amount, for examples. -/
def sample (id : Nat) (amountCents : Int64) : Order :=
  ⟨Uuid.ofNat id, Uuid.ofNat 0, amountCents, .pending, 0, 0⟩

end Order

end MultimodalDb
