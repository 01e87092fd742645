import MultimodalDb.Generic.EdgeRuns
import MultimodalDb.Generic.StackTwins

/-!
# Create starts over

The stack made on the files of an earlier one and the stack made on an empty path, under one
history. Told apart they can be only by a log: a link that creates a label the earlier stack had
linked under finds its log, and appends to it (`old_edges_come_back`).
-/

namespace MultimodalDb

open Method Disk MultiSymmetric
open StoredRecord hiding id

/-- The disk without the files whose names begin with a path. -/
def Disk.emptied (base : Path) (d : Disk) : Disk :=
  fun path => if base <+: path then none else d path

namespace ProductionStack

variable {R Id IV SV : Type} [LinearOrder Id] [StoredRecord R Id IV SV] [MmapFieldValue Id]
  [MmapFieldValue SV]
variable [DecidableEq IV] [Serde R] [Serde Id]
variable {relations : Relations} {base : Path} {K : Set String} {s : ProductionStack R Id IV SV}
  {d d' : Disk}

/-- One process on two disks: the stack is the same, and so are the files it looks at. -/
structure Paired (relations : Relations) (base : Path) (st st' : Process R Id IV SV) : Prop where
  same : st'.1 = st.1
  disks : ∃ K : Set String, (∀ label ∈ relations.labels, label ∈ K) ∧
    (∀ s, st.1 = some s → Known base K s) ∧ Shared (SCHEMA_TAG R) base K st.2 st'.2

/-- A link of a history finds no log of the label it creates. -/
def EventFresh (base : Path) (st : Process R Id IV SV) : Event R Id SV → Prop
  | .call (.link relation a b) _ => ∀ s, st.1 = some s → LinkFresh base s st.2 relation a b
  | _ => True

/-- The same of every link of a history. -/
def AllFresh (relations : Relations) (base : Path) :
  Process R Id IV SV → List (Event R Id SV) → Prop
  | _, [] => True
  | st, event :: events =>
    EventFresh base st event ∧ AllFresh relations base (step relations base st event).2 events

/-! ## A call -/

theorem twin_method (hKnown : Known base K s) (h : Shared (SCHEMA_TAG R) base K d d')
    (call : Call R Id SV)
    (hFresh : ∀ {relation a b}, call = .link relation a b → LinkFresh base s d' relation a b) :
    twin call.method s d d' (fun _ t e e' => ∃ L, K ⊆ L ∧ Known base L t ∧
      Shared (SCHEMA_TAG R) base L e e')
      fun _ t e e' => ∃ L, K ⊆ L ∧ Known base L t ∧ Shared (SCHEMA_TAG R) base L e e' := by
  have hFiles : labelledFiles base K ⊆ knownFiles base K := Set.subset_insert _ _
  have hShares := shares hFiles (Set.Subset.rfl : knownWrites base K ⊆ _)
  have hAlike {ε α : Type} {m : Method (ProductionStack R Id IV SV) ε α} {f : ε → CallError Id}
      {g : α → CallValue}
      (hm : Alike (knownFiles base K) (knownWrites base K) (Known base K) (fun _ => True) m) :
      twin (do
        let a ← Method.mapError f m
        return g a) s d d' (fun _ t e e' =>
          ∃ L, K ⊆ L ∧ Known base L t ∧ Shared (SCHEMA_TAG R) base L e e')
        fun _ t e e' => ∃ L, K ⊆ L ∧ Known base L t ∧ Shared (SCHEMA_TAG R) base L e e' :=
    (hm.mapError.bind fun a _ => alike_pure (P := fun _ => True) trivial).twin hKnown h.kept
      (fun _ _ _ _ _ hT hE => ⟨K, Set.Subset.rfl, hT, h.of_kept hE⟩)
      fun _ _ _ _ hT hE => ⟨K, Set.Subset.rfl, hT, h.of_kept hE⟩
  cases call with
  | insert record => exact hAlike (alike_onInner (GenericMmapStore.alike_insert hShares record))
  | replace record => exact hAlike (alike_onInner (GenericMmapStore.alike_replace hShares record))
  | update key value =>
    exact hAlike (alike_onInner (GenericMmapStore.alike_update hShares key value))
  | delete key => exact hAlike (alike_delete hFiles Set.Subset.rfl key)
  | link relation a b =>
    exact twin_bind (twin_mapError
      ((twin_link hKnown h (hFresh rfl)).mono (fun _ _ _ _ hE => twin_pure hE) fun _ _ _ _ => id))
  | detach relation key => exact hAlike (alike_detachUnder hFiles Set.Subset.rfl relation key)
  | compact => exact hAlike (alike_compact hFiles Set.Subset.rfl)

/-! ## Opening and creating -/

theorem twin_openPortable {t : Unit} (h : Shared (SCHEMA_TAG R) base K d d')
    (hLabels : ∀ label ∈ relations.labels, label ∈ K) : twin (openPortable relations base) t d d'
      (fun (s : ProductionStack R Id IV SV) _ e e' => Known base K s ∧
        Shared (SCHEMA_TAG R) base K e e')
      fun _ _ e e' => Shared (SCHEMA_TAG R) base K e e' := by
  have hShares := shares (Set.subset_insert _ _ : labelledFiles base K ⊆ knownFiles base K)
    (Set.Subset.rfl : knownWrites base K ⊆ _)
  have hCore : Alike (knownFiles base K) (knownWrites base K) (fun _ : Unit => True)
      (GenericMmapStore.OfFile base)
      (GenericMmapStore.openPortable base : Method Unit DurabilityError
        (GenericMmapStore R Id IV SV)) :=
    GenericMmapStore.alike_openPortable hShares
  refine twin_bind (hCore.twin trivial h.kept (fun inner _ e e' hInner _ hE => ?_)
    fun _ _ _ _ _ hE => h.of_kept hE)
  refine twin_bind ((MultiSymmetric.twin_openPortable hInner (h.of_kept hE) hLabels).mono
    (fun layer _ _ _ ⟨hKnown, hNow⟩ =>
      twin_pure ⟨⟨hKnown.inner, hKnown.basePath, hKnown.labels⟩, hNow⟩)
    fun _ _ _ _ => id)

theorem twin_create {t : Unit} {records : List R} {edges : String → List (Id × Id)}
    (hClean : ∀ label, d (InsertLog.logPath (labeledEdgesPath base label)) = none) :
    twin (create relations records edges base) t d d'
      (fun (s : ProductionStack R Id IV SV) _ e e' =>
        Known base {label | label ∈ relations.labels} s ∧
        Shared (SCHEMA_TAG R) base {label | label ∈ relations.labels} e e')
      fun _ _ _ _ => True := by
  have hStart : Kept ∅ (knownWrites base {label | label ∈ relations.labels}) d d' d d' :=
    .refl fun _ => nofun
  refine twin_bind (GenericMmapStore.twin_create hStart storeWrites_known
    (fun inner e e' hInner hE => ?_) fun _ _ _ _ => trivial)
  refine twin_bind ((MultiSymmetric.twin_create (fun _ _ _ _ => trivial) hInner
    (hE.mono Set.subset_union_right) hClean fun label => ?_).mono (fun layer _ _ _ ⟨hKnown, hNow⟩ =>
      twin_pure ⟨⟨hKnown.inner, hKnown.basePath, hKnown.labels⟩, hNow⟩) fun _ _ _ _ => id)
  simp

/-! ## Histories -/

/-- One event: both are answered the same. -/
theorem Paired.step {st st' : Process R Id IV SV} (h : Paired relations base st st')
    {event : Event R Id SV} (hFresh : EventFresh base st' event) :
    (step relations base st' event).1 = (step relations base st event).1 ∧
      Paired relations base (step relations base st event).2 (step relations base st' event).2 := by
  obtain ⟨stack, d⟩ := st
  obtain ⟨stack', d'⟩ := st'
  obtain ⟨hSame, K, hLabels, hKnown, hShared⟩ := h
  obtain rfl : stack' = stack := hSame
  dsimp only at hKnown hShared
  cases event with
  | call call plan =>
    cases stack' with
    | none => exact ⟨rfl, rfl, K, hLabels, nofun, hShared⟩
    | some s =>
      have hTwin := twin_method (hKnown s rfl) hShared call (fun hCall => by
        subst hCall
        exact hFresh s rfl) plan
      unfold ProductionStack.step
      dsimp only
      generalize call.method ⟨s, d, plan⟩ = r at hTwin
      generalize call.method ⟨s, d', plan⟩ = r' at hTwin
      cases hTwin with
      | ok hEnd =>
        obtain ⟨L, hSub, hNow, hE⟩ := hEnd
        exact ⟨rfl, rfl, L, fun label hLabel => hSub (hLabels label hLabel),
          fun _ hT => by cases hT; exact hNow, hE⟩
      | @error x t e e' rest hEnd =>
        obtain ⟨L, hSub, hNow, hE⟩ := hEnd
        have hAll : ∀ label ∈ relations.labels, label ∈ L :=
          fun label hLabel => hSub (hLabels label hLabel)
        cases x with
        | error x => exact ⟨rfl, rfl, L, hAll, fun _ hT => by cases hT; exact hNow, hE⟩
        | panic => exact ⟨rfl, rfl, L, hAll, nofun, hE⟩
        | crash => exact ⟨rfl, rfl, L, hAll, nofun, hE⟩
  | reopen plan =>
    have hOpen : twin (openPortable relations base : Method Unit DurabilityError
        (ProductionStack R Id IV SV)) () d d'
        (fun s _ e e' => Known base K s ∧ Shared (SCHEMA_TAG R) base K e e')
        fun _ _ e e' => Shared (SCHEMA_TAG R) base K e e' := twin_openPortable hShared hLabels
    have hTwin := hOpen plan
    unfold ProductionStack.step
    dsimp only
    generalize (openPortable relations base : Method Unit DurabilityError
      (ProductionStack R Id IV SV)) ⟨(), d, plan⟩ = r
      at hTwin
    generalize (openPortable relations base : Method Unit DurabilityError
      (ProductionStack R Id IV SV)) ⟨(), d', plan⟩ = r'
      at hTwin
    cases hTwin with
    | ok hEnd => exact ⟨rfl, rfl, K, hLabels, fun _ hT => by cases hT; exact hEnd.1, hEnd.2⟩
    | @error x t e e' rest hEnd =>
      cases x with
      | error x => exact ⟨rfl, rfl, K, hLabels, nofun, hEnd⟩
      | panic => exact ⟨rfl, rfl, K, hLabels, nofun, hEnd⟩
      | crash => exact ⟨rfl, rfl, K, hLabels, nofun, hEnd⟩

/-- A whole history. -/
theorem Paired.run {st st' : Process R Id IV SV} (h : Paired relations base st st')
    {events : List (Event R Id SV)} (hFresh : AllFresh relations base st' events) :
    (run relations base st' events).1 = (run relations base st events).1 ∧
      Paired relations base (run relations base st events).2 (run relations base st' events).2 := by
  induction events generalizing st st' with
  | nil => exact ⟨rfl, h⟩
  | cons event events ih =>
    obtain ⟨hReply, hNext⟩ := h.step hFresh.1
    obtain ⟨hReplies, hEnd⟩ := ih hNext hFresh.2
    exact ⟨congrArg₂ List.cons hReply hReplies, hEnd⟩

theorem emptied_log (base : Path) (d : Disk) (label : String) :
    d.emptied base (InsertLog.logPath (labeledEdgesPath base label)) = none :=
  if_pos (layerFiles_under (blobFiles_subset base label (Or.inr (Or.inr (Or.inl rfl)))))

/-- **Create starts over.** A stack made over any files and the one made at the emptied path answer
every history the same, and are the same stack after it, as long as no link creates a label for
which there is an old log. -/
theorem create_starts_over {records : List R} {edges : String → List (Id × Id)}
    {plan : List Outcome} {d : Disk} {s : ProductionStack R Id IV SV} {p' : Proc Unit}
    (hCreate : create relations records edges base ⟨(), d, plan⟩ = .ok s p') :
    ∃ p, create relations records edges base ⟨(), d.emptied base, plan⟩ = .ok s p ∧
      ∀ events : List (Event R Id SV), AllFresh relations base (some s, p'.disk) events →
        (run relations base (some s, p'.disk) events).1 =
        (run relations base (some s, p.disk) events).1 ∧
        (run relations base (some s, p'.disk) events).2.1 =
          (run relations base (some s, p.disk) events).2.1 := by
  have hTwin :=
    (twin_create (emptied_log base d) : twin (create relations records edges base) ()
      (d.emptied base) d _ _) plan
  rw [hCreate] at hTwin
  generalize hClean : create relations records edges base ⟨(), d.emptied base, plan⟩ = r at hTwin
  cases hTwin with
  | @ok _ _ e e' rest hEnd =>
    refine ⟨_, rfl, fun events hFresh => ?_⟩
    have hPaired : Paired relations base (some s, e) (some s, e') :=
      ⟨rfl, {label | label ∈ relations.labels}, fun _ hLabel => hLabel,
        fun _ hT => by cases hT; exact hEnd.1, hEnd.2⟩
    obtain ⟨hReplies, hStacks⟩ := hPaired.run hFresh
    exact ⟨hReplies, hStacks.same⟩

/-! ### On orders -/

section Sample

abbrev OrderStack : Type := ProductionStack Order Uuid OrderStatus Int64

/-- A create of three orders, for examples. -/
def sampleCreate : Method Unit DurabilityError OrderStack :=
  create entityRelations [.sample 1 25, .sample 2 40, .sample 3 15] (fun _ => []) sampleBase

/-- What a history leaves after that create, with the neighbours of the first order under one label.
-/
def sampleHistory (d : Disk) (events : List (Event Order Uuid Int64)) : Option (List Uuid × Disk) :=
  (Method.built sampleCreate [] d).bind fun st =>
    let after := (run entityRelations sampleBase (some st.1, st.2) events).2
    after.1.map fun s => ((s.under "likes").neighbors (Uuid.ofNat 1), after.2)

def sampleLink (relation : String) (b : Nat) : Event Order Uuid Int64 :=
  .call (.link relation (Uuid.ofNat 1) (Uuid.ofNat b)) []

/-- A later history: a new label, a compaction of both, and an opening from the files. -/
def sampleFollows : List (Event Order Uuid Int64) :=
  [sampleLink "follows" 3, .call .compact [], .reopen []]

/-- An earlier stack had linked the first two orders under one label, and its log is still there.
After a create over its files a history that links under another is answered as on the emptied path.
-/
theorem create_starts_over_sample : ∃ (neighbors : List Uuid) (d : Disk) (s : OrderStack)
    (p p' : Proc Unit),
    sampleHistory (fun _ => none) [sampleLink "likes" 2] = some (neighbors, d) ∧
    (d (InsertLog.logPath (labeledEdgesPath sampleBase "likes"))).isSome = true ∧
    sampleCreate ⟨(), d, []⟩ = .ok s p' ∧ sampleCreate ⟨(), d.emptied sampleBase, []⟩ = .ok s p ∧
    (run entityRelations sampleBase (some s, p'.disk) sampleFollows).1 =
      (run entityRelations sampleBase (some s, p.disk) sampleFollows).1 ∧
    (run entityRelations sampleBase (some s, p'.disk) sampleFollows).2.1 =
      (run entityRelations sampleBase (some s, p.disk) sampleFollows).2.1 := by
  have hRun : ((sampleHistory (fun _ => none) [sampleLink "likes" 2]).bind fun r =>
      (Method.built sampleCreate [] r.2).map fun st =>
        ((r.2 (InsertLog.logPath (labeledEdgesPath sampleBase "likes"))).isSome,
          st.2 (InsertLog.logPath (labeledEdgesPath sampleBase "follows")))) =
            some (true, none) := by
    decide +kernel
  obtain ⟨⟨neighbors, d⟩, hFirst, hAfter⟩ := Option.bind_eq_some_iff.mp hRun
  obtain ⟨⟨s, d'⟩, hBuilt, hEq⟩ := Option.map_eq_some_iff.mp hAfter
  rw [Prod.mk.injEq] at hEq
  obtain ⟨hOld, hLog⟩ := hEq
  obtain ⟨p', hCreate, rfl⟩ := Method.built_eq_some.mp hBuilt
  obtain ⟨p, hClean, hAll⟩ := create_starts_over hCreate
  have hSame := hAll sampleFollows ⟨fun _ _ _ _ => hLog, trivial, trivial, trivial⟩
  exact ⟨neighbors, d, s, p, p', hFirst, hOld, hCreate, hClean, hSame⟩

/-- **An old log is read back.** An earlier stack had linked the first two orders. After a create
over its files one link of the first and the third brings the old edge back at the next opening. -/
theorem old_edges_come_back : ∃ (neighbors : List Uuid) (d : Disk),
    sampleHistory (fun _ => none) [sampleLink "likes" 2] = some (neighbors, d) ∧
    (sampleHistory d [sampleLink "likes" 3, .reopen []]).map (·.1) =
      some [Uuid.ofNat 2, Uuid.ofNat 3] ∧
    (sampleHistory (d.emptied sampleBase) [sampleLink "likes" 3, .reopen []]).map (·.1) =
      some [Uuid.ofNat 3] := by
  have hRun : ((sampleHistory (fun _ => none) [sampleLink "likes" 2]).map fun r =>
      ((sampleHistory r.2 [sampleLink "likes" 3, .reopen []]).map (·.1),
        (sampleHistory (r.2.emptied sampleBase) [sampleLink "likes" 3, .reopen []]).map (·.1))) =
      some (some [Uuid.ofNat 2, Uuid.ofNat 3], some [Uuid.ofNat 3]) := by decide +kernel
  obtain ⟨⟨neighbors, d⟩, hFirst, hEq⟩ := Option.map_eq_some_iff.mp hRun
  rw [Prod.mk.injEq] at hEq
  exact ⟨neighbors, d, hFirst, hEq⟩

end Sample

end ProductionStack

end MultimodalDb
