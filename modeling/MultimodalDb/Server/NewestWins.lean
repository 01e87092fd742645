import MultimodalDb.Lib.Newest
import MultimodalDb.Server.RecordTables
import MultimodalDb.Server.WriteBatch

/-!
# The newest version wins

Writers of one record replace it where the stored time is older than that of their version. Each
offer is looked at and taken in one step, as a request of its own, as an entry of a batch, and in an
atomic batch; so the record is at every moment a newest of those that were stored or offered
(`newest_wins`).
-/

namespace MultimodalDb

open Newest

variable {R V : Type} {D : Domain R V}

/-! ## Versions -/

/-- A field that every record of a table has as a time. -/
structure Stamp (D : Domain R V) where
  tag : FieldRef
  time : R → Int64
  kindOf_tag : (D.schema.fields.find? fun f => f.tag = tag).map (·.valueKind) = some .i64
  find_tag : ∀ r, ((D.fieldsOf r).find? fun f => f.1 = tag) = some (tag, .i64 (time r))

/-- The fields of a version of a record. -/
structure RecordVersion (D : Domain R V) (id : RecordId) where
  fields : Fields
  record : R
  parses : D.fromFields id fields = .ok record

/-- The record that a write is about. -/
def WriteOp.target? : WriteOp → Option RecordId
  | .insert id _ | .replace id _ | .replaceIf id _ _ | .delete id => some id
  | .link _ _ _ => none

/-- A write of a batch that is about another record. -/
structure Aside (D : Domain R V) (id : RecordId) where
  op : WriteOp
  other : RecordId
  target : op.target? = some other
  ne : other ≠ id
  prepared : ∃ p, D.prepareWrite op = .ok p

/-- The stored time is older than that of this version. -/
def Stamp.guard (S : Stamp D) (r : R) : Predicate := ⟨S.tag, .lt, .i64 (S.time r)⟩

/-- Times in their order. -/
def Stamp.key (S : Stamp D) (r : R) : Int := (S.time r).toInt

/-- A conditional replace, or a write about another record. -/
inductive Offer (D : Domain R V) (id : RecordId) where
  | version (v : RecordVersion D id)
  | aside (a : Aside D id)

variable {id : RecordId}

def Offer.op (S : Stamp D) : Offer D id → WriteOp
  | version v => .replaceIf id v.fields (S.guard v.record)
  | aside a => a.op

def Offer.record? : Offer D id → Option R
  | version v => some v.record
  | aside _ => none

/-! ## Requests -/

/-- What reaches the table. Between two entries of a batch that is not atomic anything else may;
what does is then between two batches. -/
inductive Arrival (D : Domain R V) (id : RecordId) where
  | request (v : RecordVersion D id)
  | batch (offers : List (Offer D id)) (atomic : Bool)

namespace Arrival

def offers : Arrival D id → List (Offer D id)
  | request v => [.version v]
  | batch offers _ => offers

/-- What a request is answered, and what it leaves, where the storage takes every write. -/
def serve (S : Stamp D) :
  Arrival D id → Stack R → Except (Nat × ErrorCode) (List WriteResult) × Stack R
  | request v, s =>
    match validatePredicate D.schema (S.guard v.record) with
    | .error code => (.error (0, code), s)
    | .ok () =>
      let (result, s') := D.applyWriteOp .works (Offer.op S (.version v)) s
      (.ok [result], s')
  | batch offers atomic, s => D.writeBatch [] (offers.map (Offer.op S)) atomic s

/-- What requests are answered one after another, and what they leave. -/
def serveAll (S : Stamp D) : List (Arrival D id) → Stack R →
    List (Except (Nat × ErrorCode) (List WriteResult)) × Stack R
  | [], s => ([], s)
  | a :: rest, s =>
    let (reply, s') := a.serve S s
    let (replies, s'') := serveAll S rest s'
    (reply :: replies, s'')

end Arrival

/-- The answers to offers, and the record before and after them: an offer is answered as applied
exactly where it is newer than the record, which it then becomes, and as refused where the record
stays. -/
inductive Told (S : Stamp D) : R → List (Offer D id) → List WriteResult → R → Prop where
  | nil (r : R) : Told S r [] [] r
  | applied {r v offers results r'} (hNewer : S.key r < S.key v.record)
      (h : Told S v.record offers results r') :
      Told S r (.version v :: offers) (.replaced :: results) r'
  | refused {r v offers results r'} (hOlder : S.key v.record ≤ S.key r)
      (h : Told S r offers results r') :
      Told S r (.version v :: offers) (.guardFailed :: results) r'
  | aside {r a offers results r'} (result : WriteResult) (h : Told S r offers results r') :
      Told S r (.aside a :: offers) (result :: results) r'

/-- The answers to requests. None is an error. -/
inductive ToldAll (S : Stamp D) :
    R → List (Arrival D id) → List (Except (Nat × ErrorCode) (List WriteResult)) → R → Prop where
  | nil (r : R) : ToldAll S r [] [] r
  | cons {r a rest results replies r' r''} (h : Told S r a.offers results r')
      (hRest : ToldAll S r' rest replies r'') :
      ToldAll S r (a :: rest) (.ok results :: replies) r''

/-! ## One offer -/

variable {S : Stamp D} {s : Stack R} {r : R}

theorem Stamp.validate_guard (S : Stamp D) (r : R) :
    validatePredicate D.schema (S.guard r) = .ok () := by
  unfold validatePredicate
  rw [show (S.guard r).field = S.tag from rfl, S.kindOf_tag]
  rfl

theorem Stamp.guard_matches (S : Stamp D) (stored r : R) :
    predicateMatches (D.fieldsOf stored) (S.guard r) = decide (S.key stored < S.key r) := by
  unfold predicateMatches
  rw [show (S.guard r).field = S.tag from rfl, S.find_tag]
  change orderingMatches (compare (S.key stored) (S.key r)) .lt = _
  rcases lt_trichotomy (S.key stored) (S.key r) with hLt | hEq | hGt
  · rw [compare_lt_iff_lt.mpr hLt, decide_eq_true hLt]
    rfl
  · rw [compare_eq_iff_eq.mpr hEq, decide_eq_false (by omega)]
    rfl
  · rw [compare_gt_iff_gt.mpr hGt, decide_eq_false (by omega)]
    rfl

/-- A version is taken where it is newer. -/
theorem apply_version (v : RecordVersion D id) (hRow : s.rows id = some r) :
    D.applyWriteOp .works (Offer.op S (.version v)) s =
      if S.key r < S.key v.record then (.replaced, s.setRow id (some v.record))
        else (.guardFailed, s) := by
  have hGuard := S.guard_matches r v.record
  rw [Offer.op, Domain.applyWriteOp, Domain.replaceRecordIf, v.parses]
  dsimp only
  rw [Domain.replaceRowIf, D.id_fromFields v.parses, hRow]
  dsimp only
  rw [hGuard]
  by_cases hNewer : S.key r < S.key v.record
  · rw [decide_eq_true hNewer, if_pos rfl, if_pos hNewer]
    rfl
  · rw [decide_eq_false hNewer, if_neg Bool.false_ne_true, if_neg hNewer]

theorem rowAfter_of_ne {op : WriteOp} {other : RecordId} (hTarget : op.target? = some other)
    (hNe : other ≠ id) (row : Option R) : D.rowAfter op id row = row := by
  cases op with
  | link left right relation => cases hTarget
  | delete target =>
    cases hTarget
    exact if_neg hNe
  | _ =>
    cases hTarget
    exact if_neg fun h => hNe h.1

/-- A write about another record leaves this one. -/
theorem apply_aside (a : Aside D id) : (D.applyWriteOp .works a.op s).2.rows id = s.rows id := by
  obtain ⟨p, hPrepared⟩ := a.prepared
  have hPrepares := Domain.prepares_of_prepareWrite hPrepared
  rw [hPrepares.applyWriteOp_eq]
  rcases hPrepares.applyPrepared_cases .works s with
    ⟨-, result, s', hRun, hMakes⟩ | ⟨-, code, s', hRun, hLeaves⟩
  · rw [hRun]
    exact (hMakes.rows id).trans (rowAfter_of_ne a.target a.ne _)
  · rw [hRun, hLeaves.rows]
    cases a.op <;> rfl

/-! ## One request -/

/-- Offers that are made one by one. -/
theorem told_pipelined (S : Stamp D) (i : Nat) (offers : List (Offer D id))
    (hRow : s.rows id = some r) :
    ∃ r', (D.writePipelined [] i (offers.map (Offer.op S)) s).2.rows id = some r' ∧
      Told S r offers (D.writePipelined [] i (offers.map (Offer.op S)) s).1 r' := by
  induction offers generalizing i s r with
  | nil => exact ⟨r, hRow, .nil r⟩
  | cons offer offers ih =>
    rw [List.map_cons, Domain.writePipelined, Domain.storageAt_nil]
    cases offer with
    | version v =>
      rw [apply_version v hRow]
      by_cases hNewer : S.key r < S.key v.record
      · rw [if_pos hNewer]
        have hRow' : (s.setRow id (some v.record)).rows id = some v.record := by
          rw [Stack.rows_setRow, Function.update_self]
        obtain ⟨r', hEnd, hTold⟩ := ih (i + 1) hRow'
        exact ⟨r', hEnd, .applied hNewer hTold⟩
      · rw [if_neg hNewer]
        obtain ⟨r', hEnd, hTold⟩ := ih (i + 1) hRow
        exact ⟨r', hEnd, .refused (not_lt.mp hNewer) hTold⟩
    | aside a =>
      have hRow' : (D.applyWriteOp .works (Offer.op S (.aside a)) s).2.rows id = some r :=
        (apply_aside a).trans hRow
      obtain ⟨r', hEnd, hTold⟩ := ih (i + 1) hRow'
      exact ⟨r', hEnd, .aside _ hTold⟩

theorem prepared_offer (S : Stamp D) (offer : Offer D id) :
    ∃ p, D.prepareWrite (offer.op S) = .ok p := by
  cases offer with
  | version v =>
    refine ⟨.replaceIf v.record (S.guard v.record), ?_⟩
    rw [Offer.op, Domain.prepareWrite, S.validate_guard, v.parses]
    rfl
  | aside a => exact a.prepared

theorem link_ne_offer (S : Stamp D) (offer : Offer D id) (left right : RecordId)
    (relation : String) :
    offer.op S ≠ .link left right relation := by
  cases offer with
  | version v => exact nofun
  | aside a =>
    intro hEq
    have hTarget := a.target
    rw [show a.op = .link left right relation from hEq] at hTarget
    cases hTarget

/-- Without links, and with a storage that works, no write fails at its place. -/
theorem haltsAt_eq_none {ops : List WriteOp}
    (h : ∀ op ∈ ops, ∀ left right relation, op ≠ .link left right relation) (i : Nat)
    (s : Stack R) :
    D.haltsAt [] i ops s = none := by
  induction ops generalizing i s with
  | nil => rfl
  | cons op ops ih =>
    have hServed : D.served .works s op = true := by
      cases op with
      | link left right relation => exact absurd rfl (h _ List.mem_cons_self left right relation)
      | _ => rfl
    rw [Domain.haltsAt, Domain.storageAt_nil, if_pos hServed,
      ih fun op hMem => h op (List.mem_cons_of_mem _ hMem)]
    rfl

/-- An atomic batch of offers makes them one by one. -/
theorem atomic_offers (S : Stamp D) (offers : List (Offer D id)) (s : Stack R) :
    D.writeBatch [] (offers.map (Offer.op S)) true s =
      (.ok (D.writePipelined [] 0 (offers.map (Offer.op S)) s).1,
        (D.writePipelined [] 0 (offers.map (Offer.op S)) s).2) := by
  have hLinks : ∀ op ∈ offers.map (Offer.op S), ∀ left right relation, op ≠
      .link left right relation := by
    intro op hMem
    obtain ⟨offer, -, rfl⟩ := List.mem_map.mp hMem
    exact link_ne_offer S offer
  rcases Domain.writeBatch_cases (D := D) [] (offers.map (Offer.op S)) s with
    ⟨hUnparsed | ⟨left, right, relation, hMem, -⟩, -⟩ | ⟨-, ⟨-, hRun⟩ | ⟨halt, e, s', hHalts, -⟩⟩
  · obtain ⟨op, hMem, hNone⟩ := hUnparsed
    obtain ⟨offer, -, rfl⟩ := List.mem_map.mp hMem
    obtain ⟨p, hPrepared⟩ := prepared_offer S offer
    exact absurd hPrepared (hNone p)
  · exact absurd rfl (hLinks _ hMem left right relation)
  · exact hRun
  · rw [haltsAt_eq_none hLinks] at hHalts
    cases hHalts

/-- **One request.** Its offers are answered as they change the record. -/
theorem told_serve (S : Stamp D) (a : Arrival D id) (hRow : s.rows id = some r) :
    ∃ results r', (a.serve S s).1 = .ok results ∧ (a.serve S s).2.rows id = some r' ∧
      Told S r a.offers results r' := by
  cases a with
  | request v =>
    obtain ⟨r', hEnd, hTold⟩ := told_pipelined S 0 [.version v] hRow
    rw [Arrival.serve, S.validate_guard]
    exact ⟨_, r', rfl, hEnd, hTold⟩
  | batch offers atomic =>
    obtain ⟨r', hEnd, hTold⟩ := told_pipelined S 0 offers hRow
    refine ⟨(D.writePipelined [] 0 (offers.map (Offer.op S)) s).1, r', ?_, ?_, hTold⟩
    · cases atomic with
      | true => rw [Arrival.serve, atomic_offers]
      | false => rfl
    · cases atomic with
      | true =>
        rw [Arrival.serve, atomic_offers]
        exact hEnd
      | false => exact hEnd

/-! ## Any order -/

/-- The versions that were offered. -/
def Arrival.records (arrivals : List (Arrival D id)) : List R :=
  (arrivals.flatMap Arrival.offers).filterMap Offer.record?

theorem Told.newest {offers : List (Offer D id)} {results : List WriteResult} {r' : R}
    (h : Told S r offers results r') :
    r' = Newest.newest S.key r (offers.filterMap Offer.record?) := by
  induction h with
  | nil r => rfl
  | @applied r v offers results r' hNewer _ ih =>
    rw [ih, List.filterMap_cons_some (show Offer.record? (.version v) = some v.record from rfl),
      newest_cons, newer, if_pos hNewer]
  | @refused r v offers results r' hOlder _ ih =>
    rw [ih, List.filterMap_cons_some (show Offer.record? (.version v) = some v.record from rfl),
      newest_cons, newer, if_neg (not_lt.mpr hOlder)]
  | @aside r a offers results r' result _ ih =>
    rw [ih, List.filterMap_cons_none (show Offer.record? (.aside a) = none from rfl)]

theorem newest_append (time : R → Int) (held : R) (offers offers' : List R) :
    Newest.newest time held (offers ++ offers') =
      Newest.newest time (Newest.newest time held offers) offers' :=
  List.foldl_append

theorem ToldAll.newest {arrivals : List (Arrival D id)}
    {replies : List (Except (Nat × ErrorCode) (List WriteResult))}
    {r' : R} (h : ToldAll S r arrivals replies r') :
    r' = Newest.newest S.key r (Arrival.records arrivals) := by
  induction h with
  | nil r => rfl
  | @cons r a rest results replies r' r'' hTold _ ih =>
    rw [ih, hTold.newest, ← newest_append]
    simp only [Arrival.records, List.flatMap_cons, List.filterMap_append]

theorem told_serveAll (S : Stamp D) (arrivals : List (Arrival D id)) (hRow : s.rows id = some r) :
    ∃ r', (Arrival.serveAll S arrivals s).2.rows id = some r' ∧
      ToldAll S r arrivals (Arrival.serveAll S arrivals s).1 r' := by
  induction arrivals generalizing s r with
  | nil => exact ⟨r, hRow, .nil r⟩
  | cons a rest ih =>
    obtain ⟨results, r₁, hReply, hRow₁, hTold⟩ := told_serve S a hRow
    obtain ⟨r₂, hEnd, hRest⟩ := ih hRow₁
    rw [Arrival.serveAll]
    refine ⟨r₂, hEnd, ?_⟩
    dsimp only
    rw [hReply]
    exact .cons hTold hRest

/-- **The newest version wins.** However the versions of a record arrive, each is answered as
applied exactly where it changed the record, and the record at the end is a newest of the stored one
and all versions. With distinct times it is the same for every arrival of the same versions. -/
theorem newest_wins (S : Stamp D) {id : RecordId} {s : Stack R} {r : R} (hRow : s.rows id = some r)
    (arrivals : List (Arrival D id)) :
    ∃ r', (Arrival.serveAll S arrivals s).2.rows id = some r' ∧
      ToldAll S r arrivals (Arrival.serveAll S arrivals s).1 r' ∧
      r' ∈ r :: Arrival.records arrivals ∧
      (∀ version ∈ r :: Arrival.records arrivals, S.time version ≤ S.time r') ∧
      (Set.InjOn S.time {version | version ∈ r :: Arrival.records arrivals} →
        ∀ (t : Stack R) (others : List (Arrival D id)), t.rows id = some r →
          (∀ version, version ∈ Arrival.records others ↔ version ∈ Arrival.records arrivals) →
          (Arrival.serveAll S others t).2.rows id = some r') := by
  obtain ⟨r', hEnd, hTold⟩ := told_serveAll S arrivals hRow
  refine ⟨r', hEnd, hTold, ?_, ?_, fun hTimes t others hStart hSame => ?_⟩
  · rw [hTold.newest]
    exact newest_mem
  · intro version hMem
    have hLe : S.key version ≤ S.key (Newest.newest S.key r (Arrival.records arrivals)) :=
      le_newest version hMem
    rw [hTold.newest]
    exact Int64.le_iff_toInt_le.mpr hLe
  · obtain ⟨r'', hEnd', hTold'⟩ := told_serveAll S others hStart
    have hKeys : Set.InjOn S.key {version | version ∈ r :: Arrival.records arrivals} :=
      fun a ha b hb hEq => hTimes ha hb (Int64.toInt_inj.mp hEq)
    rw [hEnd', hTold'.newest, hTold.newest,
      newest_congr (fun version => (hSame version).symm) hKeys]

/-! ## The times of the tables -/

namespace Memory

def createdAt : Stamp domain := ⟨FIELD_CREATED_AT, (·.createdAtUnixMs), rfl, fun _ => rfl⟩

def updatedAt : Stamp domain := ⟨FIELD_UPDATED_AT, (·.updatedAtUnixMs), rfl, fun _ => rfl⟩

def deletedAt : Stamp domain := ⟨FIELD_DELETED_AT, (·.deletedAtUnixMs), rfl, fun _ => rfl⟩

/-- A version of the first sample memory that was written at a time. -/
def sampleAt (updatedAtUnixMs : Int64) : Memory :=
  { sample 1 0 with updatedAtUnixMs := updatedAtUnixMs }

def sampleVersion (updatedAtUnixMs : Int64) : RecordVersion domain (Uuid.ofNat 1) :=
  ⟨fieldsOf (sampleAt updatedAtUnixMs), sampleAt updatedAtUnixMs, rfl⟩

/-- Three versions, one of them twice: in an atomic batch, alone, and in a batch that is not atomic.
-/
theorem newest_wins_sample : ∃ r', (Arrival.serveAll updatedAt
    [.batch [.version (sampleVersion 7), .version (sampleVersion 9)] true,
      .request (sampleVersion 8),
      .batch [.version (sampleVersion 9)] false] sampleStack).2.rows (Uuid.ofNat 1) = some r' ∧
      r'.updatedAtUnixMs = 9 := by
  have hRow : sampleStack.rows (Uuid.ofNat 1) = some (sample 1 0) := by decide
  obtain ⟨r', hEnd, -, hMem, hNewest, -⟩ := newest_wins updatedAt hRow
    [.batch [.version (sampleVersion 7), .version (sampleVersion 9)] true,
      .request (sampleVersion 8), .batch [.version (sampleVersion 9)] false]
  have hLe : (9 : Int64) ≤ r'.updatedAtUnixMs := hNewest (sampleAt 9) (by decide +kernel)
  refine ⟨r', hEnd, ?_⟩
  have hTimes : r' ∈ [sample 1 0, sampleAt 7, sampleAt 9, sampleAt 8, sampleAt 9] := hMem
  revert hLe
  revert r'
  decide +kernel

end Memory

namespace Reminder

def dueAt : Stamp domain := ⟨FIELD_DUE_AT, (·.dueAtUnixMs), rfl, fun _ => rfl⟩

end Reminder

namespace Relation

def createdAt : Stamp domain := ⟨FIELD_CREATED_AT, (·.createdAtUnixMs), rfl, fun _ => rfl⟩

def updatedAt : Stamp domain := ⟨FIELD_UPDATED_AT, (·.updatedAtUnixMs), rfl, fun _ => rfl⟩

def deletedAt : Stamp domain := ⟨FIELD_DELETED_AT, (·.deletedAtUnixMs), rfl, fun _ => rfl⟩

end Relation

end MultimodalDb
