import MultimodalDb.Generic.MmapRuns
import MultimodalDb.Generic.SymmetricInvariant

/-!
# Histories of the edge layers

A history remembers which pairs were linked and not since removed. After every history of calls that
storage did not stop, the neighbours of a node are its partners in those pairs, each of them once,
and the edges are counted by the pairs. A deleted id has no edge left; under a foreign label it can
have one again only by a link from its other end.
-/

namespace MultimodalDb

open NeighborLists StoreView
open StoredRecord hiding id
open StoredRecord renaming id → idOf

/-! ## One relation -/

section Relation

variable {Id : Type} [DecidableEq Id] {ids : Set Id} {foreign : Bool} {linked : Finset (Sym2 Id)}
variable {m : NeighborLists Id}

/-- The adjacency of a relation in which these pairs are linked. -/
structure Tidy (ids : Set Id) (foreign : Bool) (linked : Finset (Sym2 Id))
    (m : NeighborLists Id) : Prop where
  symm : ∀ a b, b ∈ m.neighbors a → a ∈ m.neighbors b
  nodup : ∀ a, (m.neighbors a).Nodup
  irrefl : ∀ a, a ∉ m.neighbors a
  ends : foreign = false → ∀ a b, b ∈ m.neighbors a → a ∈ ids ∧ b ∈ ids
  joined : ∀ a b, b ∈ m.neighbors a ↔ s(a, b) ∈ linked
  count : m.edgeCount = linked.card

theorem EdgesOver.tidy (h : EdgesOver ids foreign m) : Tidy ids foreign m.edges m where
  symm _ _ hMem := h.simple.symm hMem
  nodup := h.simple.nodup
  irrefl := h.simple.irrefl
  ends hLocal _ _ hMem := ⟨h.ends hLocal hMem, h.ends hLocal (h.simple.symm hMem)⟩
  joined _ _ := h.simple.mem_edges.symm
  count := h.simple.edgeCount_eq_card

end Relation

/-! ## The layer of one relation -/

namespace Symmetric

variable {S R Id IV V : Type} [DecidableEq Id] [StoredRecord R Id IV V]
  [RecordStore S R Id V] [Serde Id]

/-- The pairs linked after an acknowledged call. -/
def Op.linked (linked : Finset (Sym2 Id)) : Op R Id V → Finset (Sym2 Id)
  | .delete id => linked.filter (fun pair => id ∉ pair)
  | .link a b => Insert.insert s(a, b) linked
  | _ => linked

/-- One call of a history that storage did not stop. -/
def step (st : (Symmetric S Id × Disk) × Finset (Sym2 Id)) (call : Op R Id V × List Outcome) :
    Option ((Symmetric S Id × Disk) × Finset (Sym2 Id)) :=
  (Method.settle call.1.method call.2 st.1).map fun r =>
    (r.2, if r.1 then call.1.linked st.2 else st.2)

variable [StoreView S Id] {s : Symmetric S Id} {d : Disk}

omit [RecordStore S R Id V] [Serde Id] in
theorem Sound.linked_op (h : Sound s d) {op : Op R Id V} (hAllowed : op.Allowed s) :
    (op.edges s.adjacency).edges = op.linked s.adjacency.edges := by
  cases op with
  | insert record => rfl
  | replace record => rfl
  | update id value => rfl
  | delete id => exact h.edges.simple.edges_dropEdgesOf id
  | link a b => exact h.edges.simple.edges_addEdge hAllowed.ne

variable [laws : LawfulRecordStore S]

/-- One call keeps the invariant, and the edges are the pairs linked. -/
theorem Sound.step (h : Sound s d) {call : Op R Id V × List Outcome}
    {st : (Symmetric S Id × Disk) × Finset (Sym2 Id)}
    (hStep : Symmetric.step ((s, d), s.adjacency.edges) call = some st) :
    Sound st.1.1 st.1.2 ∧ st.1.1.adjacency.edges = st.2 := by
  obtain ⟨⟨acknowledged, s', d'⟩, hSettle, rfl⟩ := Option.map_eq_some_iff.mp hStep
  rcases Op.settled h.valid h.apart hSettle with ⟨rfl, hAllowed, hAdvance⟩ | ⟨rfl, hAdvance⟩
  · refine ⟨hAdvance.sound h.apart (h.edges_op hAllowed), ?_⟩
    show s'.adjacency.edges = call.1.linked s.adjacency.edges
    rw [hAdvance.adjacency, h.linked_op hAllowed]
  · refine ⟨hAdvance.sound h.apart h.edges, ?_⟩
    show s'.adjacency.edges = s.adjacency.edges
    rw [hAdvance.adjacency]

/-- A whole history. -/
theorem Sound.run (h : Sound s d) {st : (Symmetric S Id × Disk) × Finset (Sym2 Id)}
    (hRun : Machine.Reachable (Symmetric.step (R := R)) ((s, d), s.adjacency.edges) st) :
    Sound st.1.1 st.1.2 ∧ st.1.1.adjacency.edges = st.2 := by
  refine hRun.invariant (P := fun st => Sound st.1.1 st.1.2 ∧ st.1.1.adjacency.edges = st.2)
    ⟨h, rfl⟩ ?_
  rintro ⟨⟨s₁, d₁⟩, linked⟩ call after - ⟨hSound, hLinked⟩ - hStep
  obtain rfl : s₁.adjacency.edges = linked := hLinked
  exact hSound.step hStep

end Symmetric

/-! ## The layer of several relations -/

namespace MultiSymmetric

variable {S R Id IV V : Type} [DecidableEq Id] [StoredRecord R Id IV V]
  [RecordStore S R Id V] [Serde Id]

/-- The pairs linked under each label after an acknowledged call. -/
def Op.linked (linked : String → Finset (Sym2 Id)) : Op R Id V → String → Finset (Sym2 Id)
  | .delete id, label => (linked label).filter (fun pair => id ∉ pair)
  | .link relation a b, label =>
    Function.update linked relation (Insert.insert s(a, b) (linked relation)) label
  | .detach relation id, label =>
    Function.update linked relation ((linked relation).filter (fun pair => id ∉ pair)) label
  | _, label => linked label

/-- One call of a history that storage did not stop. -/
def step (st : (MultiSymmetric S Id × Disk) × (String → Finset (Sym2 Id)))
    (call : Op R Id V × List Outcome) :
    Option ((MultiSymmetric S Id × Disk) × (String → Finset (Sym2 Id))) :=
  (Method.settle call.1.method call.2 st.1).map fun r =>
    (r.2, if r.1 then call.1.linked st.2 else st.2)

/-- The edges under each label. -/
def edgesUnder (s : MultiSymmetric S Id) (label : String) : Finset (Sym2 Id) :=
  (s.under label).edges

variable [StoreView S Id] {s : MultiSymmetric S Id} {d : Disk}

omit [RecordStore S R Id V] [Serde Id] in
theorem Sound.linked_op (h : Sound s d) {op : Op R Id V} (hAllowed : op.Allowed s)
    (label : String) :
    ((op.edges s label).getD ∅).edges = op.linked s.edgesUnder label := by
  have hDrop (label : String) (id : Id) : (((s.adjacency.lookup label).map
      fun m : NeighborLists Id => (m.dropEdgesOf id).2).getD ∅).edges =
        (s.edgesUnder label).filter (fun pair => id ∉ pair) := by
    have hUnder := (h.under label).simple.edges_dropEdgesOf id
    rw [edgesUnder, ← hUnder, MultiSymmetric.under]
    cases s.adjacency.lookup label with
    | none =>
      have hNone : (∅ : NeighborLists Id).dropEdgesOf id = (0, ∅) :=
        dropEdgesOf_of_not_mem (AList.notMem_empty id)
      rw [Option.map_none, Option.getD_none, hNone]
    | some m => rfl
  cases op with
  | insert record => rfl
  | replace record => rfl
  | update id value => rfl
  | delete id => exact hDrop label id
  | link relation a b =>
    rw [Op.edges, Op.linked]
    by_cases hLabel : label = relation
    · subst hLabel
      rw [Function.update_self, Function.update_self]
      exact (h.under label).simple.edges_addEdge hAllowed.ne
    · rw [Function.update_of_ne hLabel, Function.update_of_ne hLabel]
      rfl
  | detach relation id =>
    rw [Op.edges, Op.linked]
    by_cases hLabel : label = relation
    · subst hLabel
      rw [Function.update_self, Function.update_self]
      exact hDrop label id
    · rw [Function.update_of_ne hLabel, Function.update_of_ne hLabel]
      rfl

variable [laws : LawfulRecordStore S]

/-- One call keeps the invariant, and the edges are the pairs linked. -/
theorem Sound.step (h : Sound s d) {call : Op R Id V × List Outcome}
    {st : (MultiSymmetric S Id × Disk) × (String → Finset (Sym2 Id))}
    (hStep : MultiSymmetric.step ((s, d), s.edgesUnder) call = some st) :
    Sound st.1.1 st.1.2 ∧ st.1.1.edgesUnder = st.2 := by
  obtain ⟨⟨acknowledged, s', d'⟩, hSettle, rfl⟩ := Option.map_eq_some_iff.mp hStep
  rcases Op.settled h.valid h.apart hSettle with ⟨rfl, hAllowed, hAdvance⟩ | ⟨rfl, hAdvance⟩
  · refine ⟨hAdvance.sound h.apart (h.edges_op hAllowed), funext fun label => ?_⟩
    show s'.edgesUnder label = call.1.linked s.edgesUnder label
    rw [← h.linked_op hAllowed, MultiSymmetric.edgesUnder, MultiSymmetric.under, hAdvance.edges]
  · refine ⟨hAdvance.sound h.apart h.edges, funext fun label => ?_⟩
    show s'.edgesUnder label = s.edgesUnder label
    rw [MultiSymmetric.edgesUnder, MultiSymmetric.under, hAdvance.edges]
    rfl

/-- A whole history. -/
theorem Sound.run (h : Sound s d) {st : (MultiSymmetric S Id × Disk) × (String → Finset (Sym2 Id))}
    (hRun : Machine.Reachable (MultiSymmetric.step (R := R)) ((s, d), s.edgesUnder) st) :
    Sound st.1.1 st.1.2 ∧ st.1.1.edgesUnder = st.2 := by
  refine hRun.invariant (P := fun st => Sound st.1.1 st.1.2 ∧ st.1.1.edgesUnder = st.2) ⟨h, rfl⟩ ?_
  rintro ⟨⟨s₁, d₁⟩, linked⟩ call after - ⟨hSound, hLinked⟩ - hStep
  obtain rfl : s₁.edgesUnder = linked := hLinked
  exact hSound.step hStep

end MultiSymmetric

/-! ## The invariant of both layers -/

section Invariant

variable {S R Id IV V : Type} [DecidableEq Id] [StoredRecord R Id IV V]
  [RecordStore S R Id V] [Serde Id]
variable [StoreView S Id] [laws : LawfulRecordStore S]

/-- **The edge layer invariant.** Under each label the adjacency is symmetric, names no neighbour
twice and no node as its own, and holds the pairs that were linked and not since removed; under a
local relation both ends are live. An acknowledged delete leaves no edge of the record under any
label, and an inserted record starts without neighbours under every label, unless it was linked
under a foreign one meanwhile. -/
theorem edge_layer_invariant :
    (∀ {start : Symmetric S Id} {d st linked}, Symmetric.Starts R start d →
      Machine.Reachable (Symmetric.step (R := R)) ((start, d), start.adjacency.edges) (st, linked) →
      Tidy (live st.1.inner) false linked st.1.adjacency ∧
      (∀ {id plan after}, Method.settle
        (Symmetric.Op.delete id : Symmetric.Op R Id V).method plan st =
        some (true, after) → Absent id after.1.adjacency) ∧
      ∀ {record : R} {plan after}, Method.settle (Symmetric.Op.insert record).method plan st =
        some (true, after) → after.1.neighbors (idOf record) = []) ∧
    ∀ {foreign : List String} {start : MultiSymmetric S Id} {d st linked},
      MultiSymmetric.Starts R foreign start d →
      Machine.Reachable (MultiSymmetric.step (R := R)) ((start, d), start.edgesUnder) (st, linked) →
      (∀ label, Tidy (live st.1.inner) (st.1.isForeign label) (linked label) (st.1.under label)) ∧
      (∀ {id plan after}, Method.settle
        (MultiSymmetric.Op.delete id : MultiSymmetric.Op R Id V).method plan st =
        some (true, after) → ∀ label, Absent id (after.1.under label)) ∧
      ∀ {record : R} {plan after},
        Method.settle (MultiSymmetric.Op.insert record).method plan st = some (true, after) →
        ∀ label, st.1.isForeign label = false ∨ (∀ pair ∈ linked label, idOf record ∉ pair) →
          (after.1.under label).neighbors (idOf record) = [] := by
  constructor
  · rintro start d ⟨s, d'⟩ linked hStart hRun
    obtain ⟨hSound, hLinked⟩ := hStart.sound.run hRun
    obtain rfl : s.adjacency.edges = linked := hLinked
    refine ⟨hSound.edges.tidy, fun {id plan after} hDelete => ?_,
      fun {record plan after} hInsert => ?_⟩
    · obtain ⟨-, -, hAdvance⟩ | ⟨hNot, -⟩ := Symmetric.Op.settled hSound.valid hSound.apart hDelete
      · rw [hAdvance.adjacency]
        exact absent_dropEdgesOf hSound.edges.simple id
      · cases hNot
    · obtain ⟨-, hNew, hAdvance⟩ | ⟨hNot, -⟩ :=
        Symmetric.Op.settled hSound.valid hSound.apart hInsert
      · rw [Symmetric.neighbors, hAdvance.adjacency]
        exact (hSound.edges.absent hNew).neighbors_eq_nil
      · cases hNot
  · rintro foreign start d ⟨s, d'⟩ linked hStart hRun
    obtain ⟨hSound, hLinked⟩ := hStart.sound.run hRun
    obtain rfl : s.edgesUnder = linked := hLinked
    refine ⟨fun label => (hSound.under label).tidy, fun {id plan after} hDelete label => ?_,
      fun {record plan after} hInsert label hFree => ?_⟩
    · obtain ⟨-, -, hAdvance⟩ | ⟨hNot, -⟩ :=
        MultiSymmetric.Op.settled hSound.valid hSound.apart hDelete
      · rw [MultiSymmetric.under, hAdvance.edges]
        show Absent id (((s.adjacency.lookup label).map fun m => (m.dropEdgesOf id).2).getD ∅)
        cases hM : s.adjacency.lookup label with
        | none => exact fun a b hMem => by simp at hMem
        | some m => exact absent_dropEdgesOf (hSound.edges hM).simple id
      · cases hNot
    · obtain ⟨-, hNew, hAdvance⟩ | ⟨hNot, -⟩ :=
        MultiSymmetric.Op.settled hSound.valid hSound.apart hInsert
      · rw [MultiSymmetric.under, hAdvance.edges]
        show (s.under label).neighbors (idOf record) = []
        refine Absent.neighbors_eq_nil ?_
        rcases hFree with hLocal | hUnlinked
        · have hUnder := hSound.under label
          rw [hLocal] at hUnder
          exact hUnder.absent hNew
        · intro a b hMem
          have hPair : s(a, b) ∈ s.edgesUnder label :=
            (hSound.under label).simple.mem_edges.mpr hMem
          have hOut := hUnlinked _ hPair
          rw [Sym2.mem_iff, not_or] at hOut
          exact ⟨Ne.symm hOut.1, Ne.symm hOut.2⟩
      · cases hNot

end Invariant

/-! ### On the durable store -/

section Sample

open GenericMmapStore

theorem blobFiles_under {path file : Path} (h : file ∈ blobFiles path) : path <+: file := by
  rcases h with rfl | rfl | rfl | rfl
  · exact List.prefix_rfl
  · exact List.prefix_append ..
  · exact List.prefix_append ..
  · exact (List.prefix_append ..).trans (List.prefix_append ..)

theorem layerFiles_under {base file : Path} (h : file ∈ MultiSymmetric.layerFiles base) :
    base <+: file := by
  rcases h with (rfl | rfl) | hBlob
  · exact List.prefix_append ..
  · exact (List.prefix_append ..).trans (List.prefix_append ..)
  · obtain ⟨label, hFile⟩ := Set.mem_iUnion.mp hBlob
    refine List.IsPrefix.trans ?_ (blobFiles_under hFile)
    exact ((List.prefix_append base ['.']).trans (List.prefix_append _ label.toList)).trans
      (List.prefix_append ..)

/-- Where the edges are kept, for examples. -/
def sampleBase : Path := "edges".toList

/-- The store of two orders beneath a layer, for examples. -/
def sampleStore : Option (GenericMmapStore Order Uuid OrderStatus Int64 × Disk) :=
  Method.built (create sampleRecords samplePath) [] (fun _ => none)

/-- What the layers of the examples stand on. -/
structure SampleStore (inner : GenericMmapStore Order Uuid OrderStatus Int64)
    (d : Disk) : Prop where
  valid : Valid inner d
  apart : ∀ file ∈ files inner, ¬ sampleBase <+: file
  ids : ∀ id, id ∈ StoreView.live inner ↔ id ∈ sampleRecords.map Order.id

theorem sampleStore_valid {st} (h : sampleStore = some st) : SampleStore st.1 st.2 := by
  obtain ⟨p, hRun, hDisk⟩ := Method.built_eq_some.mp h
  obtain ⟨hSession, hRecords, -⟩ := (GenericMmapStore.wp_create sample_distinctIds).of_ok hRun
  have hPath : st.1.file.path = samplePath := hSession.path_eq
  refine ⟨⟨[], freshSlots sampleRecords, by rw [hPath, ← hDisk]; exact hSession⟩, ?_, fun id => ?_⟩
  · rintro file (rfl | rfl)
    · rw [hPath]
      decide
    · rw [hPath]
      decide
  · have hKeys : (recordMap sampleRecords).keys.Perm (sampleRecords.map Order.id) := by
      decide +kernel
    show id ∈ st.1.records ↔ _
    rw [hRecords, AList.mem_keys, hKeys.mem_iff]

theorem SampleStore.joinable {inner d} (h : SampleStore inner d) (foreign : Bool) :
    Joinable (StoreView.live inner) foreign (Uuid.ofNat 1) (Uuid.ofNat 2) where
  ne := by decide
  near := (h.ids _).mpr (by decide)
  far _ := (h.ids _).mpr (by decide)

theorem SampleStore.listOver {inner d} (h : SampleStore inner d) (foreign : Bool) :
    ListOver (StoreView.live inner) foreign [(Uuid.ofNat 1, Uuid.ofNat 2)] where
  ne e he := by
    rw [List.mem_singleton] at he
    rw [he]
    exact (h.joinable foreign).ne
  ends hLocal e he := by
    rw [List.mem_singleton] at he
    rw [he]
    exact ⟨(h.joinable foreign).near, (h.joinable foreign).far hLocal⟩
  nodup := List.nodup_singleton _

/-- What the blob and the log of one relation hold, for examples. -/
def sampleEdges (path : Path) (d : Disk) :
    Option (List (Uuid × Uuid) × List (LogEntry (Uuid × Uuid) Uuid)) := do
  let bytes ← d path
  let edges ← (EdgeBlob.format.decodeImage (SCHEMA_TAG Order) path bytes).toOption
  let entries ← (InsertLog.entriesOf (InsertLog.logPath path) (SCHEMA_TAG Order)
    (d (InsertLog.logPath path))).toOption
  return (edges, entries)

theorem sampleEdges_eq {path : Path} {d : Disk} {edges : List (Uuid × Uuid)}
    {entries : List (LogEntry (Uuid × Uuid) Uuid)}
    (h : sampleEdges path d = some (edges, entries)) :
    (∀ other, BlobHolds Order path other d → other = edges) ∧
      ∀ other, InsertLog.entriesOf (InsertLog.logPath path) (SCHEMA_TAG Order)
        (d (InsertLog.logPath path)) = .ok other → other = entries := by
  unfold sampleEdges at h
  obtain ⟨bytes, hFile, h⟩ := Option.bind_eq_some_iff.mp h
  obtain ⟨found, hDecode, h⟩ := Option.bind_eq_some_iff.mp h
  obtain ⟨logged, hLogged, h⟩ := Option.bind_eq_some_iff.mp h
  cases h
  constructor
  · rintro other ⟨bytes', hFile', hDecode'⟩
    obtain rfl : bytes = bytes' := Option.some.inj (hFile.symm.trans hFile')
    rw [hDecode'] at hDecode
    exact Option.some.inj hDecode
  · intro other hOther
    rw [hOther] at hLogged
    exact Option.some.inj hLogged

theorem sampleEdges_holds {path : Path} {d : Disk} {edges : List (Uuid × Uuid)}
    {entries : List (LogEntry (Uuid × Uuid) Uuid)}
    (h : sampleEdges path d = some (edges, entries)) :
    BlobHolds Order path edges d := by
  unfold sampleEdges at h
  obtain ⟨bytes, hFile, h⟩ := Option.bind_eq_some_iff.mp h
  obtain ⟨found, hDecode, h⟩ := Option.bind_eq_some_iff.mp h
  obtain ⟨logged, -, h⟩ := Option.bind_eq_some_iff.mp h
  cases h
  refine ⟨bytes, hFile, ?_⟩
  cases hImage : (EdgeBlob.format.decodeImage (SCHEMA_TAG Order) path bytes :
      Except DurabilityError (List (Uuid × Uuid))) with
  | error e => rw [hImage] at hDecode; cases hDecode
  | ok other =>
    rw [hImage] at hDecode
    exact congrArg _ (Option.some.inj hDecode)

/-- The two orders are joined when the layer is created, the second is deleted, and the layer is
opened from its files: the blob still has the edge, and the log takes it out. -/
theorem symmetric_sample : ∃ inner d, SampleStore inner d ∧ ∃ s p, Symmetric.create Order inner
    [(Uuid.ofNat 1, Uuid.ofNat 2)] sampleBase ⟨(), d, []⟩ = .ok s p ∧ ∃ after, Method.settle
      (Symmetric.Op.delete (Uuid.ofNat 2) : Symmetric.Op Order Uuid Int64).method [] (s, p.disk) =
        some (true, after) ∧
      sampleEdges sampleBase after.2 =
        some ([(Uuid.ofNat 1, Uuid.ofNat 2)], [.tombstone (Uuid.ofNat 2)]) ∧
      after.1.edgesPath = some sampleBase ∧ ∃ reopened p',
        Symmetric.openPortable Order after.1.inner sampleBase ⟨(), after.2, []⟩ =
          .ok reopened p' := by
  have hRun : ((sampleStore.bind fun st => Method.built (Symmetric.create Order st.1
      [(Uuid.ofNat 1, Uuid.ofNat 2)] sampleBase) [] st.2).bind fun st =>
        (Method.settle (Symmetric.Op.delete (Uuid.ofNat 2) :
        Symmetric.Op Order Uuid Int64).method [] st).map fun r => (r.1 &&
          sampleEdges sampleBase r.2.2 =
          some ([(Uuid.ofNat 1, Uuid.ofNat 2)], [.tombstone (Uuid.ofNat 2)]) &&
          r.2.1.edgesPath = some sampleBase &&
          (Method.built (Symmetric.openPortable Order r.2.1.inner sampleBase) [] r.2.2).isSome)) =
            some true := by
    decide +kernel
  obtain ⟨layer, hLayer, hDelete⟩ := Option.bind_eq_some_iff.mp hRun
  obtain ⟨inner, hInner, hCreate⟩ := Option.bind_eq_some_iff.mp hLayer
  obtain ⟨p, hCreated, hDisk⟩ := Method.built_eq_some.mp hCreate
  obtain ⟨⟨acknowledged, after⟩, hAfter, hEq⟩ := Option.map_eq_some_iff.mp hDelete
  simp only [Bool.and_eq_true, decide_eq_true_eq] at hEq
  obtain ⟨⟨⟨rfl, hFiles⟩, hPath⟩, hOpen⟩ := hEq
  obtain ⟨reopened, hReopened⟩ := Option.isSome_iff_exists.mp hOpen
  obtain ⟨p', hReopen, -⟩ := Method.built_eq_some.mp hReopened
  exact ⟨inner.1, inner.2, sampleStore_valid hInner, layer.1, p, hCreated, after,
    by rw [hDisk]; exact hAfter, hFiles, hPath, reopened.1, p', hReopen⟩

/-- One end of an edge is deleted, and linked to again under a foreign label, for examples. -/
def sampleCalls : List (MultiSymmetric.Op Order Uuid Int64 × List Outcome) :=
  [(.delete (Uuid.ofNat 2), []), (.link "mentions" (Uuid.ofNat 1) (Uuid.ofNat 2), [])]

theorem folded_sample :
    mergeEdgeLists [(Uuid.ofNat 1, Uuid.ofNat 2)] [.tombstone (Uuid.ofNat 2)] = [] := by
      decide +kernel

/-- Where the edges of a label are kept, for examples. -/
def sampleLabel (label : String) : Path := labeledEdgesPath sampleBase label

/-- The files of a layer with an edge that its log takes out, and one that its log brings under
another label. -/
structure SampleFiles (d : Disk) : Prop where
  manifest : LabelManifest.listed (SCHEMA_TAG Order) (LabelManifest.path sampleBase)
    (d (LabelManifest.path sampleBase)) = .ok ["knows", "mentions"]
  knows : sampleEdges (sampleLabel "knows") d =
    some ([(Uuid.ofNat 1, Uuid.ofNat 2)], [.tombstone (Uuid.ofNat 2)])
  mentions : sampleEdges (sampleLabel "mentions") d =
    some ([], [.item (Uuid.ofNat 1, Uuid.ofNat 2)])

/-- What these calls leave when the two orders were joined at the creation, and the deleted one is
inserted again after them, or the layer is opened from its files. -/
theorem multi_symmetric_sample :
    ∃ inner d, SampleStore inner d ∧ ∃ s p, MultiSymmetric.create Order inner
    [("knows", [(Uuid.ofNat 1, Uuid.ofNat 2)])] sampleBase ⟨(), d, []⟩ = .ok s p ∧ ∃ st,
      Machine.run MultiSymmetric.step ((s.withForeignLabels ["mentions"], p.disk),
        (s.withForeignLabels ["mentions"]).edgesUnder) sampleCalls = some st ∧
      (∃ after, Method.settle
        (MultiSymmetric.Op.insert (.sample 2 25) : MultiSymmetric.Op Order Uuid Int64).method []
        st.1 = some (true, after) ∧
          (after.1.under "mentions").neighbors (Uuid.ofNat 2) = [Uuid.ofNat 1]) ∧
      SampleFiles st.1.2 ∧ st.1.1.basePath = some sampleBase ∧ ∃ reopened p',
        MultiSymmetric.openPortable Order st.1.1.inner sampleBase [] ⟨(), st.1.2, []⟩ =
          .ok reopened p' := by
  have hRun : ((sampleStore.bind fun st => Method.built (MultiSymmetric.create Order st.1
      [("knows", [(Uuid.ofNat 1, Uuid.ofNat 2)])] sampleBase) [] st.2).bind fun st =>
        (Machine.run MultiSymmetric.step
        ((st.1.withForeignLabels ["mentions"], st.2),
          (st.1.withForeignLabels ["mentions"]).edgesUnder) sampleCalls).map fun st =>
        (((Method.settle
          (MultiSymmetric.Op.insert (.sample 2 25) : MultiSymmetric.Op Order Uuid Int64).method []
          st.1).map fun r => (r.1, (r.2.1.under "mentions").neighbors (Uuid.ofNat 2))) =
            some (true, [Uuid.ofNat 1]) &&
        (LabelManifest.listed (SCHEMA_TAG Order) (LabelManifest.path sampleBase)
          (st.1.2 (LabelManifest.path sampleBase))).toOption = some ["knows", "mentions"] &&
        sampleEdges (sampleLabel "knows") st.1.2 =
          some ([(Uuid.ofNat 1, Uuid.ofNat 2)], [.tombstone (Uuid.ofNat 2)]) &&
        sampleEdges (sampleLabel "mentions") st.1.2 =
          some ([], [.item (Uuid.ofNat 1, Uuid.ofNat 2)]) &&
        st.1.1.basePath = some sampleBase &&
        (Method.built (MultiSymmetric.openPortable Order st.1.1.inner sampleBase []) []
          st.1.2).isSome)) =
      some true := by
    decide +kernel
  obtain ⟨layer, hLayer, hCalls⟩ := Option.bind_eq_some_iff.mp hRun
  obtain ⟨inner, hInner, hCreate⟩ := Option.bind_eq_some_iff.mp hLayer
  obtain ⟨p, hCreated, hDisk⟩ := Method.built_eq_some.mp hCreate
  obtain ⟨st, hCalls, hEq⟩ := Option.map_eq_some_iff.mp hCalls
  simp only [Bool.and_eq_true, decide_eq_true_eq] at hEq
  obtain ⟨⟨⟨⟨⟨hInsert, hManifest⟩, hKnows⟩, hMentions⟩, hPath⟩, hOpen⟩ := hEq
  obtain ⟨⟨acknowledged, after⟩, hAfter, hNeighbors⟩ := Option.map_eq_some_iff.mp hInsert
  rw [Prod.mk.injEq] at hNeighbors
  obtain ⟨rfl, hNeighbors⟩ := hNeighbors
  obtain ⟨reopened, hReopened⟩ := Option.isSome_iff_exists.mp hOpen
  obtain ⟨p', hReopen, -⟩ := Method.built_eq_some.mp hReopened
  have hListed : LabelManifest.listed (SCHEMA_TAG Order) (LabelManifest.path sampleBase)
      (st.1.2 (LabelManifest.path sampleBase)) = .ok ["knows", "mentions"] := by
    generalize LabelManifest.listed (SCHEMA_TAG Order) (LabelManifest.path sampleBase)
      (st.1.2 (LabelManifest.path sampleBase)) = listed at hManifest
    cases listed with
    | error e => cases hManifest
    | ok labels => exact congrArg _ (Option.some.inj hManifest)
  exact ⟨inner.1, inner.2, sampleStore_valid hInner, layer.1, p, hCreated, st,
    by rw [hDisk]; exact hCalls,
    ⟨after, hAfter, hNeighbors⟩, ⟨hListed, hKnows, hMentions⟩, hPath, reopened.1, p', hReopen⟩

/-- What an opening folds these files to: nothing under one label, and an edge under the foreign
one. -/
theorem SampleFiles.foldsOver {d : Disk} (h : SampleFiles d) (ids : Set Uuid)
    {named all : List (String × List (Uuid × Uuid))}
    (hNamed : MultiSymmetric.Opens Order sampleBase
      (([] : List String).map fun label => (label, ([] : List (Uuid × Uuid)))) d named)
    (hAll : MultiSymmetric.BlobsHold Order sampleBase d named all) :
    MultiSymmetric.FoldsOver Order ids ["mentions"].contains sampleBase all d := by
  obtain ⟨manifest, hManifest, rfl⟩ := hNamed
  rw [h.manifest] at hManifest
  cases hManifest
  rcases hAll with _ | ⟨⟨hKnows, hEdges⟩, _ | ⟨⟨hMentions, hEdges'⟩, _ | _⟩⟩
  rename_i r r'
  obtain ⟨label, edges⟩ := r
  obtain ⟨label', edges'⟩ := r'
  obtain rfl : label = "knows" := hKnows
  obtain rfl : label' = "mentions" := hMentions
  obtain rfl := (sampleEdges_eq h.knows).1 _ hEdges
  obtain rfl := (sampleEdges_eq h.mentions).1 _ hEdges'
  refine ⟨fun entries hEntries => ?_, fun entries hEntries => ?_, trivial⟩
  · obtain rfl := (sampleEdges_eq h.knows).2 _ hEntries
    rw [folded_sample]
    exact ⟨nofun, fun _ => nofun, List.nodup_nil⟩
  · rw [Function.update_of_ne (by decide)] at hEntries
    obtain rfl := (sampleEdges_eq h.mentions).2 _ hEntries
    have hOne : mergeEdgeLists ([] : List (Uuid × Uuid)) [.item (Uuid.ofNat 1, Uuid.ofNat 2)] =
        [(Uuid.ofNat 1, Uuid.ofNat 2)] := by decide +kernel
    rw [hOne]
    refine ⟨fun e he => ?_, nofun, List.nodup_singleton _⟩
    rw [List.mem_singleton] at he
    rw [he]
    decide

theorem edge_layer_invariant_sample :
    (∃ after reopened : Symmetric (GenericMmapStore Order Uuid OrderStatus Int64) Uuid × Disk,
      Absent (Uuid.ofNat 2) after.1.adjacency ∧
      BlobHolds Order sampleBase [(Uuid.ofNat 1, Uuid.ofNat 2)] after.2 ∧
      Tidy (live reopened.1.inner) false reopened.1.adjacency.edges reopened.1.adjacency) ∧
    ∃ (st : (MultiSymmetric (GenericMmapStore Order Uuid OrderStatus Int64) Uuid × Disk) ×
        (String → Finset (Sym2 Uuid)))
      (reopened : MultiSymmetric (GenericMmapStore Order Uuid OrderStatus Int64) Uuid),
      (∀ label, Tidy (live st.1.1.inner) (st.1.1.isForeign label) (st.2 label)
        (st.1.1.under label)) ∧
      SampleFiles st.1.2 ∧
      ∀ label, Tidy (live reopened.inner) (reopened.isForeign label) (reopened.edgesUnder label)
        (reopened.under label) := by
  constructor
  · obtain ⟨inner, d, hInner, s, p, hCreate, after, hDelete, hFiles, hPath, reopened,
        p', hReopen⟩ :=
      symmetric_sample
    have hStart : Symmetric.Starts Order s p.disk :=
      .created hInner.valid (fun file hFile hMem => hInner.apart file hFile (blobFiles_under hMem))
        (hInner.listOver false) hCreate
    have hStep : Symmetric.step ((s, p.disk), s.adjacency.edges) (.delete (Uuid.ofNat 2), []) =
        some (after, (Symmetric.Op.delete (Uuid.ofNat 2) : Symmetric.Op Order Uuid Int64).linked
          s.adjacency.edges) := by
      rw [Symmetric.step, hDelete]
      rfl
    have hSound := (hStart.sound.step hStep).1
    have hAgain : Symmetric.Starts Order reopened p'.disk := by
      refine .reopened hSound.valid (hSound.apart sampleBase hPath)
        (fun edges hBlob entries hEntries => ?_) hReopen
      obtain rfl := (sampleEdges_eq hFiles).1 _ hBlob
      obtain rfl := (sampleEdges_eq hFiles).2 _ hEntries
      rw [folded_sample]
      exact ⟨nofun, fun _ => nofun, List.nodup_nil⟩
    exact ⟨after, (reopened, p'.disk), (edge_layer_invariant.1 hStart .refl).2.1 hDelete,
      sampleEdges_holds hFiles, (edge_layer_invariant.1 hAgain .refl).1⟩
  · obtain ⟨inner, d, hInner, s, p, hCreate, st, hRun, -, hFiles, hPath, reopened, p', hReopen⟩ :=
      multi_symmetric_sample
    have hStart : MultiSymmetric.Starts Order ["mentions"] (s.withForeignLabels ["mentions"])
        p.disk := by
      refine .created hInner.valid
        (fun file hFile hMem => hInner.apart file hFile (layerFiles_under hMem)) ?_ hCreate
      rintro r (_ | ⟨_, _ | _⟩)
      exact hInner.listOver _
    have hSound := (hStart.sound.run (Machine.runs_of_run hRun)).1
    have hAgain : MultiSymmetric.Starts Order ["mentions"] (reopened.withForeignLabels ["mentions"])
        p'.disk :=
      .reopened hSound.valid (hSound.apart sampleBase hPath)
        (fun _ _ hNamed hAll => hFiles.foldsOver _ hNamed hAll) hReopen
    exact ⟨st, reopened.withForeignLabels ["mentions"],
      (edge_layer_invariant.2 hStart (Machine.runs_of_run hRun)).1, hFiles,
      (edge_layer_invariant.2 hAgain .refl).1⟩

/-- An edge that is given twice is a neighbour twice, and is counted twice. Under a foreign label a
record that was deleted can be linked to, and has that neighbour when it is inserted again. -/
theorem edges_given_twice_and_linked_after_delete :
    (∃ (inner : GenericMmapStore Order Uuid OrderStatus Int64) (d : Disk) (edges : List
      (Uuid × Uuid))
      (s : MultiSymmetric (GenericMmapStore Order Uuid OrderStatus Int64) Uuid) (p : Proc Unit),
      Valid inner d ∧ (∀ e ∈ edges, Joinable (live inner) false e.1 e.2) ∧
      MultiSymmetric.create Order inner [("knows", edges)] sampleBase ⟨(), d, []⟩ = .ok s p ∧
      (s.under "knows").neighbors (Uuid.ofNat 1) = [Uuid.ofNat 2, Uuid.ofNat 2] ∧
      s.edgeCount "knows" = some 2 ∧ s.edgesUnder "knows" = {s(Uuid.ofNat 1, Uuid.ofNat 2)}) ∧
    ∃ (start : MultiSymmetric (GenericMmapStore Order Uuid OrderStatus Int64) Uuid) (d : Disk)
      (st : (MultiSymmetric (GenericMmapStore Order Uuid OrderStatus Int64) Uuid × Disk) × (String →
        Finset (Sym2 Uuid)))
      (after : MultiSymmetric (GenericMmapStore Order Uuid OrderStatus Int64) Uuid × Disk),
      MultiSymmetric.Starts Order ["mentions"] start d ∧
      Machine.run MultiSymmetric.step ((start, d), start.edgesUnder) sampleCalls = some st ∧
      Method.settle (MultiSymmetric.Op.insert (.sample 2 25) : MultiSymmetric.Op Order Uuid
        Int64).method [] st.1 =
        some (true, after) ∧ (after.1.under "mentions").neighbors (Uuid.ofNat 2) =
          [Uuid.ofNat 1] := by
  constructor
  · have hRun : (sampleStore.bind fun st => Method.built (MultiSymmetric.create Order st.1
        [("knows", [(Uuid.ofNat 1, Uuid.ofNat 2), (Uuid.ofNat 1, Uuid.ofNat 2)])] sampleBase)
          [] st.2).map
          (fun st => ((st.1.under "knows").neighbors (Uuid.ofNat 1), st.1.edgeCount "knows",
            st.1.edgesUnder "knows")) =
        some ([Uuid.ofNat 2, Uuid.ofNat 2], some 2, {s(Uuid.ofNat 1, Uuid.ofNat 2)}) := by
          decide +kernel
    obtain ⟨layer, hLayer, hEq⟩ := Option.map_eq_some_iff.mp hRun
    obtain ⟨inner, hInner, hCreate⟩ := Option.bind_eq_some_iff.mp hLayer
    obtain ⟨p, hCreated, -⟩ := Method.built_eq_some.mp hCreate
    simp only [Prod.mk.injEq] at hEq
    have hSample := sampleStore_valid hInner
    refine ⟨inner.1, inner.2, _, layer.1, p, hSample.valid, fun e he => ?_, hCreated, hEq⟩
    obtain rfl : e = (Uuid.ofNat 1, Uuid.ofNat 2) := by simpa using he
    exact hSample.joinable false
  · obtain ⟨inner, d, hInner, s, p, hCreate, st, hRun, ⟨after, hAfter, hNeighbors⟩, -⟩ :=
      multi_symmetric_sample
    refine ⟨s.withForeignLabels ["mentions"], p.disk, st, after, ?_, hRun, hAfter, hNeighbors⟩
    refine .created hInner.valid
      (fun file hFile hMem => hInner.apart file hFile (layerFiles_under hMem)) ?_ hCreate
    rintro r (_ | ⟨_, _ | _⟩)
    exact hInner.listOver _

end Sample

end MultimodalDb
