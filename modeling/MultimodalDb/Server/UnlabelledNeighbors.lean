import MultimodalDb.Generic.EdgeRuns
import MultimodalDb.Server.Joins
import MultimodalDb.Server.Reads

/-!
# Neighbors under every label

The neighbors of a record under no particular label are those under each of its labels, one list
after another. Their ids are the union of the lists; a pair that two labels link is in it twice. So
what a neighbors request and a join answer names each related record once exactly where no pair is
linked twice.
-/

namespace MultimodalDb

open NeighborLists StoreView

namespace MultiSymmetric

/-! ## The union -/

section Union

variable {S Id : Type} [DecidableEq Id] {s : MultiSymmetric S Id} {id other : Id}

omit [DecidableEq Id] in
theorem mem_entries {label : String} {m : NeighborLists Id} :
    ⟨label, m⟩ ∈ s.adjacency.entries ↔ s.adjacency.lookup label = some m := by
  rw [AList.lookup, ← Option.mem_def, List.mem_dlookup_iff s.adjacency.nodupKeys]

/-- The ids listed are those linked under some label. -/
theorem mem_allNeighbors :
    other ∈ s.allNeighbors id ↔ ∃ label, other ∈ (s.under label).neighbors id := by
  rw [allNeighbors, List.mem_flatMap]
  constructor
  · rintro ⟨⟨label, m⟩, hEntry, hMem⟩
    refine ⟨label, ?_⟩
    rw [under, mem_entries.mp hEntry, Option.getD_some]
    exact hMem
  · rintro ⟨label, hMem⟩
    rw [under] at hMem
    cases hLookup : s.adjacency.lookup label with
    | none =>
      rw [hLookup] at hMem
      cases hMem
    | some m =>
      rw [hLookup] at hMem
      exact ⟨⟨label, m⟩, mem_entries.mpr hLookup, hMem⟩

/-- No pair is linked twice, under one label or under two. -/
structure LinkedOnce (s : MultiSymmetric S Id) : Prop where
  within : ∀ id label, ((s.under label).neighbors id).Nodup
  across : ∀ {id other label label'}, other ∈ (s.under label).neighbors id →
    other ∈ (s.under label').neighbors id → label = label'

/-- **Each id is listed once exactly where no pair is linked twice.** -/
theorem nodup_allNeighbors : (∀ id, (s.allNeighbors id).Nodup) ↔ s.LinkedOnce := by
  have hUnder {e : (_ : String) × NeighborLists Id} (he : e ∈ s.adjacency.entries) :
      s.under e.1 = e.2 := by
    rw [under, mem_entries.mp he, Option.getD_some]
  simp only [allNeighbors, List.nodup_flatMap]
  constructor
  · intro hAll
    have hEntry (label : String) : s.under label = ∅ ∨
        ⟨label, s.under label⟩ ∈ s.adjacency.entries := by
      rw [mem_entries, under]
      cases s.adjacency.lookup label with
      | none => exact Or.inl rfl
      | some m => exact Or.inr rfl
    refine ⟨fun id label => ?_, fun {id other label label'} hMem hMem' => ?_⟩
    · rcases hEntry label with hNone | hSome
      · rw [hNone]
        exact List.nodup_nil
      · exact (hAll id).1 _ hSome
    · rcases hEntry label with hNone | hSome
      · rw [hNone] at hMem
        cases hMem
      rcases hEntry label' with hNone | hSome'
      · rw [hNone] at hMem'
        cases hMem'
      by_contra hNe
      have hSymm : Std.Symm (Function.onFun List.Disjoint
          fun e : (_ : String) × NeighborLists Id => e.2.neighbors id) := ⟨fun _ _ h => h.symm⟩
      have hApart := (hAll id).2.forall hSome hSome' fun hEq => hNe (congrArg Sigma.fst hEq)
      exact hApart hMem hMem'
  · intro hOnce id
    refine ⟨fun e he => ?_, ?_⟩
    · rw [← hUnder he]
      exact hOnce.within id e.1
    · have hKeys : s.adjacency.entries.Pairwise fun e e' => e.1 ≠ e'.1 :=
        List.pairwise_map.mp s.adjacency.keys_nodup
      refine hKeys.imp_of_mem fun he he' hNe other hMem hMem' => hNe ?_
      dsimp only at hMem hMem'
      rw [← hUnder he] at hMem
      rw [← hUnder he'] at hMem'
      exact hOnce.across hMem hMem'

end Union

/-! ## Runs that link no pair twice -/

section Runs

variable {S R Id IV V : Type} [DecidableEq Id] [StoredRecord R Id IV V]
  [RecordStore S R Id V] [Serde Id]

/-- A link of a pair that no other label links. -/
def Op.Fresh (linked : String → Finset (Sym2 Id)) : Op R Id V → Prop
  | .link relation a b => ∀ label, label ≠ relation → s(a, b) ∉ linked label
  | _ => True

/-- No two labels link one pair. -/
def Apiece (linked : String → Finset (Sym2 Id)) : Prop :=
  ∀ pair label label', pair ∈ linked label → pair ∈ linked label' → label = label'

variable {linked : String → Finset (Sym2 Id)}

omit [RecordStore S R Id V] [Serde Id] in
/-- What one call does to the pairs linked. -/
theorem Apiece.op (h : Apiece linked) {op : Op R Id V} (hFresh : op.Fresh linked) :
    Apiece (op.linked linked) := by
  intro pair label label' hMem hMem'
  cases op with
  | insert record => exact h pair label label' hMem hMem'
  | replace record => exact h pair label label' hMem hMem'
  | update id value => exact h pair label label' hMem hMem'
  | delete id =>
    exact h pair label label' (Finset.mem_filter.mp hMem).1 (Finset.mem_filter.mp hMem').1
  | link relation a b =>
    have hOld {label : String}
        (hMem : pair ∈ Op.linked linked (.link relation a b : Op R Id V) label) :
        pair ∈ linked label ∨ label = relation ∧ pair = s(a, b) := by
      rw [Op.linked] at hMem
      by_cases hLabel : label = relation
      · subst hLabel
        rw [Function.update_self, Finset.mem_insert] at hMem
        exact hMem.symm.imp_right fun hNew => ⟨rfl, hNew⟩
      · rw [Function.update_of_ne hLabel] at hMem
        exact Or.inl hMem
    rcases hOld hMem with hLeft | ⟨rfl, rfl⟩ <;> rcases hOld hMem' with hRight | ⟨hSame, hPair⟩
    · exact h pair label label' hLeft hRight
    · by_contra hNe
      exact hFresh label (fun hEq => hNe (hEq.trans hSame.symm)) (hPair ▸ hLeft)
    · by_contra hNe
      exact hFresh label' (fun hEq => hNe hEq.symm) hRight
    · exact hSame.symm
  | detach relation id =>
    have hOld {label : String}
        (hMem : pair ∈ Op.linked linked (.detach relation id : Op R Id V) label) :
        pair ∈ linked label := by
      rw [Op.linked] at hMem
      by_cases hLabel : label = relation
      · subst hLabel
        rw [Function.update_self] at hMem
        exact (Finset.mem_filter.mp hMem).1
      · rwa [Function.update_of_ne hLabel] at hMem
    exact h pair label label' (hOld hMem) (hOld hMem')

variable [StoreView S Id] {s : MultiSymmetric S Id} {d : Disk}

omit [Serde Id] in
/-- In a sound layer a pair can only be linked twice under two labels. -/
theorem Sound.linkedOnce_iff (h : Sound s d) : s.LinkedOnce ↔ Apiece s.edgesUnder := by
  have hMem {a b : Id} {label : String} : s(a, b) ∈ s.edgesUnder label ↔
      b ∈ (s.under label).neighbors a :=
    (h.under label).simple.mem_edges
  constructor
  · intro hOnce pair label label'
    induction pair with
    | h a b =>
      rw [hMem, hMem]
      exact hOnce.across
  · intro hApiece
    refine ⟨fun id label => (h.under label).simple.nodup id,
      fun {id other label label'} hLeft hRight => ?_⟩
    exact hApiece s(id, other) label label' (hMem.mpr hLeft) (hMem.mpr hRight)

omit [StoreView S Id] in
/-- A run whose links are fresh links no pair twice. -/
theorem Apiece.run {st st' : (MultiSymmetric S Id × Disk) × (String → Finset (Sym2 Id))}
    (h : Apiece st.2)
    (hRun : Machine.Runs (MultiSymmetric.step (R := R)) (fun st call => call.1.Fresh st.2) st st') :
    Apiece st'.2 := by
  refine hRun.invariant (P := fun st => Apiece st.2) h ?_
  rintro ⟨⟨s₁, d₁⟩, linked⟩ call after - hHere hFresh hStep
  obtain ⟨⟨acknowledged, s', d'⟩, -, rfl⟩ := Option.map_eq_some_iff.mp hStep
  cases acknowledged with
  | true => exact hHere.op hFresh
  | false => exact hHere

end Runs

end MultiSymmetric

/-! ## What a table answers -/

namespace Entity

/-- `neighbors` of the adapter over its layer of labels. -/
def neighbors {S : Type} (s : MultiSymmetric S RecordId) (id : RecordId) :
    Except ErrorCode (List RecordId) :=
  .ok (s.allNeighbors id)

end Entity

section Answers

open Program Tables MultiSymmetric

variable {S : Type}

/-- A table of a server that lists its live records and answers for their neighbors as an entity
table. -/
structure Serves {n : Nat} {σ : Fin n → Type} (T : Tables n σ) (w : Contents σ) (i : Fin n)
    (s : MultiSymmetric S RecordId) : Prop where
  lists : ListsLive T w i
  neighbors : ∀ id, (T.store i).read (.neighbors id) (w i) = Entity.neighbors s id

/-- The two ids are linked, under whatever label. -/
def Related (s : MultiSymmetric S RecordId) (a b : RecordId) : Prop :=
  ∃ label, b ∈ (s.under label).neighbors a

/-- **Unlabelled neighbors are a union.** Each related id is listed once, by the layer and to a
neighbors request, and each related pair that a join asks for is joined once. -/
structure NeighborsAreUnion (s : MultiSymmetric S RecordId) : Prop where
  listed : ∀ a, (s.allNeighbors a).Nodup ∧ ∀ b, b ∈ s.allNeighbors a ↔ Related s a b
  requested :
    ∀ {n : Nat} {σ : Fin n → Type} (T : Tables n σ) (w : Contents σ) (i : Fin n) (taken : Bool),
    Serves T w i s → ∀ a, ∃ ids, (run (T.answer taken) (T.dispatch i (.neighbors a)) w).1 =
      .recordList ids ∧ ids.Nodup ∧ ∀ b, b ∈ ids ↔ Related s a b
  joined :
    ∀ {n : Nat} {σ : Fin n → Type} (T : Tables n σ) (w : Contents σ) (i : Fin n) (taken : Bool),
    Serves T w i s → ∀ spec, spec.relation = .neighbors none →
      validateJoin (T.store i).describe (run (T.answer taken) (T.describeRelations i) w).1 none
      spec = .ok () →
      ∃ pairs : List (PageRow × RecordId × Fields),
          (run (T.answer taken) (T.dispatch i (.join spec)) w).1 =
          .joinedRows (truncate spec.limit (pairs.map (joinedRow spec))) ∧ pairs.Nodup ∧
        ∀ l b fields, (l, b, fields) ∈ pairs ↔
          (T.live w i l.1 = some l.2 ∧ spec.leftFilter.all (predicateMatches l.2) = true) ∧
            Related s l.1 b ∧ T.live w i b = some fields ∧
              spec.rightFilter.all (predicateMatches fields) = true

theorem neighborsAreUnion_iff (s : MultiSymmetric S RecordId) :
    NeighborsAreUnion s ↔ s.LinkedOnce := by
  constructor
  · exact fun h => nodup_allNeighbors.mp fun a => (h.listed a).1
  · intro hOnce
    have hListed (a : RecordId) : (s.allNeighbors a).Nodup ∧ ∀ b, b ∈ s.allNeighbors a ↔
        Related s a b :=
      ⟨nodup_allNeighbors.mpr hOnce a, fun _ => mem_allNeighbors⟩
    refine ⟨hListed, fun T w i taken hServes a => ⟨_, ?_, hListed a⟩,
      fun T w i taken hServes spec hRelation hValid =>
        ⟨_, run_join taken i hValid, ?_, fun l b fields => ?_⟩⟩
    · rw [run_neighbors, hServes.neighbors]
      rfl
    · refine nodup_relatedPairs (nodup_rows hServes.lists) fun row _ => ?_
      rw [hRelation, related, hServes.neighbors]
      exact (hListed row.1).1
    · rw [mem_joinPairs hServes.lists, hRelation, related, hServes.neighbors]
      have hMem : b ∈ ((Entity.neighbors s l.1).toOption.getD []) ↔ Related s l.1 b :=
        (hListed l.1).2 b
      rw [hMem]

variable {R IV V : Type} [StoredRecord R RecordId IV V] [RecordStore S R RecordId V]
  [Serde RecordId]
variable [StoreView S RecordId] [laws : LawfulRecordStore S]

/-- **Neighbors under every label.** In whatever state a layer is, its unlabelled neighbors are a
union exactly where no pair is linked twice; in the states that a run reaches this can only be under
two labels. A layer that starts with no pair linked twice, and links none that another label links,
stays one. -/
theorem unlabelled_neighbors :
    (∀ s : MultiSymmetric S RecordId, NeighborsAreUnion s ↔ s.LinkedOnce) ∧
    ∀ {foreign : List String} {start : MultiSymmetric S RecordId} {d st linked},
      MultiSymmetric.Starts R foreign start d →
      (Machine.Reachable (MultiSymmetric.step (R := R)) ((start, d), start.edgesUnder)
        (st, linked) → (NeighborsAreUnion st.1 ↔ Apiece linked)) ∧
      (start.LinkedOnce → Machine.Runs (MultiSymmetric.step (R := R)) (fun st call =>
          call.1.Fresh st.2)
          ((start, d), start.edgesUnder) (st, linked) → NeighborsAreUnion st.1) := by
  refine ⟨neighborsAreUnion_iff, fun {foreign start d st linked} hStart => ?_⟩
  have hReached (hRun : Machine.Reachable (MultiSymmetric.step (R := R)) ((start, d),
      start.edgesUnder) (st, linked)) : NeighborsAreUnion st.1 ↔ Apiece linked := by
    obtain ⟨hSound, hLinked⟩ := hStart.sound.run hRun
    rw [neighborsAreUnion_iff, hSound.linkedOnce_iff, hLinked]
  refine ⟨hReached, fun hOnce hRun => (hReached hRun.reachable).mpr ?_⟩
  exact Apiece.run (hStart.sound.linkedOnce_iff.mp hOnce) hRun

end Answers

/-! ### Two labels -/

section Sample

open Program Tables MultiSymmetric GenericMmapStore

/-- The two orders are linked, for examples. -/
def linkCall : MultiSymmetric.Op Order Uuid Int64 × List Outcome :=
  (.link "met" (Uuid.ofNat 1) (Uuid.ofNat 2), [])

/-- A layer created with these edges under another label, and what the link leaves of it. -/
theorem linked_sample (edges : List (Uuid × Uuid)) (before after : List Uuid)
    (hRun : ((sampleStore.bind fun st =>
      Method.built (MultiSymmetric.create Order st.1 [("knows", edges)] sampleBase)
      [] st.2).bind fun st => (MultiSymmetric.step ((st.1.withForeignLabels [], st.2),
        (st.1.withForeignLabels []).edgesUnder) linkCall).map
          fun linked => (st.1.relationKinds, st.1.allNeighbors (Uuid.ofNat 1),
            linked.1.1.allNeighbors (Uuid.ofNat 1))) = some (["knows"], before, after))
    (hEdges : ∀ {inner d}, SampleStore inner d → ListOver (live inner) false edges) :
    ∃ (start : MultiSymmetric (GenericMmapStore Order Uuid OrderStatus Int64) Uuid) (d : Disk)
      (st : (MultiSymmetric (GenericMmapStore Order Uuid OrderStatus Int64) Uuid × Disk) ×
        (String → Finset (Sym2 Uuid))), MultiSymmetric.Starts Order [] start d ∧
      start.relationKinds = ["knows"] ∧ start.allNeighbors (Uuid.ofNat 1) = before ∧
      MultiSymmetric.step ((start, d), start.edgesUnder) linkCall = some st ∧
      st.1.1.allNeighbors (Uuid.ofNat 1) = after := by
  obtain ⟨layer, hLayer, hLink⟩ := Option.bind_eq_some_iff.mp hRun
  obtain ⟨inner, hInner, hCreate⟩ := Option.bind_eq_some_iff.mp hLayer
  obtain ⟨p, hCreated, hDisk⟩ := Method.built_eq_some.mp hCreate
  obtain ⟨st, hStep, hEq⟩ := Option.map_eq_some_iff.mp hLink
  simp only [Prod.mk.injEq] at hEq
  have hSample := sampleStore_valid hInner
  refine ⟨layer.1.withForeignLabels [], p.disk, st, .created hSample.valid
    (fun file hFile hMem => hSample.apart file hFile (layerFiles_under hMem)) ?_ hCreated, hEq.1,
    hEq.2.1, by rw [hDisk]; exact hStep, hEq.2.2⟩
  rintro r (_ | ⟨_, _ | _⟩)
  exact hEdges hSample

theorem unlabelled_neighbors_sample :
    ∃ st : MultiSymmetric (GenericMmapStore Order Uuid OrderStatus Int64) Uuid × Disk,
      st.1.allNeighbors (Uuid.ofNat 1) = [Uuid.ofNat 2] ∧ NeighborsAreUnion st.1 := by
  obtain ⟨start, d, st, hStart, hKinds, hBefore, hStep, hIds⟩ :=
    linked_sample [] [] [Uuid.ofNat 2] (by decide +kernel) fun _ =>
      ⟨nofun, fun _ => nofun, List.nodup_nil⟩
  have hUnder {label : String} (hOther : label ≠ "knows") : start.under label = ∅ := by
    rw [under, AList.lookup_eq_none.mpr, Option.getD_none]
    rw [AList.mem_keys]
    show label ∉ start.relationKinds
    rw [hKinds, List.mem_singleton]
    exact hOther
  have hOnce : start.LinkedOnce := by
    refine hStart.sound.linkedOnce_iff.mpr fun pair label label' hMem hMem' => ?_
    have hKnows {label : String} (hMem : pair ∈ start.edgesUnder label) : label = "knows" := by
      by_contra hOther
      rw [edgesUnder, hUnder hOther] at hMem
      exact Finset.notMem_empty pair hMem
    rw [hKnows hMem, hKnows hMem']
  have hFresh : linkCall.1.Fresh start.edgesUnder := by
    intro label _ hMem
    have hLinked : Uuid.ofNat 2 ∈ start.allNeighbors (Uuid.ofNat 1) :=
      mem_allNeighbors.mpr ⟨label, (hStart.sound.under label).simple.mem_edges.mp hMem⟩
    rw [hBefore] at hLinked
    cases hLinked
  exact ⟨st.1, hIds, (unlabelled_neighbors.2 hStart).2 hOnce (.tail .refl hFresh hStep)⟩

/-- **A pair that two labels link is listed twice.** A layer is created with a pair linked under one
label, and the pair is linked under another. -/
theorem neighbor_listed_twice :
    ∃ (start : MultiSymmetric (GenericMmapStore Order Uuid OrderStatus Int64) Uuid) (d : Disk)
      (st : (MultiSymmetric (GenericMmapStore Order Uuid OrderStatus Int64) Uuid × Disk) ×
        (String → Finset (Sym2 Uuid))), MultiSymmetric.Starts Order [] start d ∧
      Machine.Reachable MultiSymmetric.step ((start, d), start.edgesUnder) st ∧
      st.1.1.allNeighbors (Uuid.ofNat 1) = [Uuid.ofNat 2, Uuid.ofNat 2] ∧
        ¬ NeighborsAreUnion st.1.1 := by
  obtain ⟨start, d, st, hStart, -, -, hStep, hIds⟩ := linked_sample [(Uuid.ofNat 1, Uuid.ofNat 2)]
    [Uuid.ofNat 2] [Uuid.ofNat 2, Uuid.ofNat 2] (by decide +kernel) fun hSample =>
      hSample.listOver false
  refine ⟨start, d, st, hStart, .tail .refl trivial hStep, hIds, fun hUnion => ?_⟩
  have hNodup := (hUnion.listed (Uuid.ofNat 1)).1
  rw [hIds] at hNodup
  exact List.not_nodup_pair _ hNodup

end Sample

end MultimodalDb
