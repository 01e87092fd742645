import MultimodalDb.Generic.EdgeOpening

/-!
# The invariant of the layer of one relation

Its relation is local: both ends of an edge are live. The calls are those of the layer of several
relations, without labels and without a detach.
-/

namespace MultimodalDb

open NeighborLists StoreView
open StoredRecord hiding id
open StoredRecord renaming id → idOf

namespace Symmetric

variable {S T R Id IV V : Type} [DecidableEq Id] [StoredRecord R Id IV V]
  [RecordStore S R Id V] [Serde Id]
variable [StoreView S Id] {s s' : Symmetric S Id} {d d' : Disk} {known : Set Id}
  {m : NeighborLists Id}

/-! ### The state after a call -/

/-- The store beneath answers for no file of the layer. -/
def Apart (s : Symmetric S Id) : Prop :=
  ∀ path, s.edgesPath = some path → ∀ file ∈ files s.inner, file ∉ blobFiles path

/-- The live ids and the adjacency after a call. -/
structure Advance (s : Symmetric S Id) (ids : Set Id) (m : NeighborLists Id) (s' : Symmetric S Id)
    (d' : Disk) : Prop where
  inner : Becomes s.inner ids s'.inner d'
  edgesPath : s'.edgesPath = s.edgesPath
  adjacency : s'.adjacency = m

omit [DecidableEq Id] [Serde Id] in
theorem Advance.apart (h : Advance s known m s' d') (hApart : Apart s) : Apart s' := by
  intro path hPath file hFile
  rw [h.edgesPath] at hPath
  rw [h.inner.files] at hFile
  exact hApart path hPath file hFile

/-- A link that is not refused may be, and joins its ends. -/
theorem wp_link_advance [laws : LawfulRecordStore S] (hValid : Valid s.inner d) (hApart : Apart s)
    (a b : Id) :
    Method.wp (link a b) s d
      (fun _ s' d' => Joinable (live s.inner) false a b ∧
        Advance s (live s.inner) (s.adjacency.addEdge a b) s' d')
      (Refused EdgeLayer.LinkError.durability? fun s' d' => s' = s ∧ d' = d)
      (Stopped EdgeLayer.LinkError.durability?) := by
  have hRefused (e : EdgeLayer.LinkError Id) :
      Refused EdgeLayer.LinkError.durability? (fun s' d' => s' = s ∧ d' = d) (.error e) s d :=
    fun _ _ _ => ⟨rfl, rfl⟩
  obtain ⟨left, hLeft, hNear⟩ := laws.get_live hValid a
  obtain ⟨right, hRight, hFar⟩ := laws.get_live hValid b
  refine Method.wp_bind (Method.wp_self ?_)
  rw [hLeft]
  refine Method.wp_bind (Method.wp_pure ?_)
  split
  · exact Method.wp_fail (hRefused _)
  · next hSomeLeft =>
    rw [hRight]
    refine Method.wp_bind (Method.wp_pure ?_)
    split
    · exact Method.wp_fail (hRefused _)
    · next hSomeRight =>
      split
      · exact Method.wp_fail (hRefused _)
      · next hNe =>
        have hJoin : Joinable (live s.inner) false a b :=
          ⟨hNe, hNear.mp (by simpa [Option.isSome_iff_ne_none] using hSomeLeft),
            fun _ => hFar.mp (by simpa [Option.isSome_iff_ne_none] using hSomeRight)⟩
        split
        · next hEdge =>
          rw [hasEdge, decide_eq_true_iff] at hEdge
          exact Method.wp_pure ⟨hJoin, ⟨hValid, rfl, rfl⟩, rfl, (if_pos hEdge).symm⟩
        · next hEdge =>
          rw [hasEdge, decide_eq_true_iff] at hEdge
          have hDone (d' : Disk) (hStill : Valid s.inner d') : Joinable (live s.inner) false a b ∧
              Advance s
              (live s.inner) (s.adjacency.addEdge a b)
                { s with adjacency := s.adjacency.pushEdge a b } d' :=
            ⟨hJoin, ⟨hStill, rfl, rfl⟩, rfl, (if_neg hEdge).symm⟩
          refine Method.wp_bind (wp_storage (fun _ => nofun) (Method.wp_bind (Method.wp_self ?_)))
          split
          · next path hPath =>
            refine (InsertLog.touches_append (F := blobFiles path) _ (Or.inr (Or.inr (Or.inl rfl)))
              (Or.inr (Or.inr (Or.inr rfl)))).wp (fun _ d' hSame => ?_) fun _ _ _ => trivial
            refine Method.wp_bind (Method.wp_modifySelf (Method.wp_pure (hDone d' ?_)))
            exact laws.valid_congr hValid fun file hFile =>
              hSame file (hApart path hPath file hFile)
          · exact Method.wp_pure (Method.wp_bind
              (Method.wp_modifySelf (Method.wp_pure (hDone d hValid))))

/-- What a delete does: it is refused, or the record and its edges are gone. -/
theorem wp_delete_advance [laws : LawfulRecordStore S] (hValid : Valid s.inner d)
    (hApart : Apart s) (id : Id) :
    Method.wp (delete id) s d
      (fun _ s' d' => id ∈ live s.inner ∧
        Advance s (live s.inner \ {id}) (s.adjacency.dropEdgesOf id).2 s' d')
      (Refused DeleteError.durability? (Advance s (live s.inner) s.adjacency))
      (Stopped DeleteError.durability?) := by
  refine Method.wp_bind (Method.wp_onPart
    ((laws.wp_delete hValid id).mono (fun _ t d₁ hDeleted => ?_)
    (fun _ _ _ hRefused r hEq hNone => ⟨hRefused r hEq hNone, rfl, rfl⟩) fun _ _ _ hStopped =>
      hStopped))
  obtain ⟨hLive, hBecomes⟩ := hDeleted
  refine Method.wp_bind (Method.wp_self ?_)
  split
  · have hDone (d' : Disk) (hStill : Valid t d') : id ∈ live s.inner ∧
        Advance s (live s.inner \ {id}) (s.adjacency.dropEdgesOf id).2
        { setInner t s with adjacency := ((setInner t s).adjacency.dropEdgesOf id).2 } d' :=
      ⟨hLive, ⟨hStill, hBecomes.files, hBecomes.live⟩, rfl, rfl⟩
    refine Method.wp_bind (wp_storage (fun _ hEq => by cases hEq)
      (Method.wp_bind (Method.wp_self ?_)))
    split
    · next path hPath =>
      refine (InsertLog.touches_append (F := blobFiles path) _ (Or.inr (Or.inr (Or.inl rfl)))
        (Or.inr (Or.inr (Or.inr rfl)))).wp (fun _ d' hSame =>
          Method.wp_modifySelf (hDone d' ?_)) fun _ _ _ => trivial
      refine laws.valid_congr hBecomes.valid fun file hFile =>
        hSame file (hApart path hPath file ?_)
      rwa [← hBecomes.files]
    · exact Method.wp_pure (Method.wp_modifySelf (hDone d₁ hBecomes.valid))
  · next hNot =>
    have hSame : (s.adjacency.dropEdgesOf id).2 = s.adjacency :=
      congrArg (·.2) (dropEdgesOf_of_not_mem hNot)
    exact Method.wp_pure ⟨hLive, hBecomes, rfl, hSame.symm⟩

/-! ### Calls -/

/-- A call on a layer of one relation. -/
inductive Op (R Id V : Type) where
  | insert (record : R)
  | replace (record : R)
  | update (id : Id) (value : V)
  | delete (id : Id)
  | link (a b : Id)

/-- The call itself. Its error is the durability error, or `none` when the layer refused the call.
-/
def Op.method : Op R Id V → Method (Symmetric S Id) (Option DurabilityError) Unit
  | .insert record => Method.mapError InsertError.durability? (Symmetric.insert record)
  | .replace record => Method.mapError ReplaceError.durability? (Symmetric.replace record)
  | .update id value => Method.mapError (fun _ => none) (Symmetric.update id value)
  | .delete id => Method.mapError DeleteError.durability? (Symmetric.delete id)
  | .link a b => Method.mapError EdgeLayer.LinkError.durability? do
      let _ ← Symmetric.link a b
      return ()

namespace Op

/-- What the layer asks of an acknowledged call. -/
def Allowed (s : Symmetric S Id) : Op R Id V → Prop
  | .insert record => idOf record ∉ live s.inner
  | .delete id => id ∈ live s.inner
  | .link a b => Joinable (live s.inner) false a b
  | _ => True

/-- The live ids after an acknowledged call. -/
def ids (ids : Set Id) : Op R Id V → Set Id
  | .insert record => Insert.insert (idOf record) ids
  | .delete id => ids \ {id}
  | _ => ids

/-- The adjacency after an acknowledged call. -/
def edges (m : NeighborLists Id) : Op R Id V → NeighborLists Id
  | .delete id => (m.dropEdgesOf id).2
  | .link a b => m.addEdge a b
  | _ => m

variable [laws : LawfulRecordStore S]

omit [DecidableEq Id] [Serde Id] laws in
/-- A call of the store beneath is one of the layer. -/
theorem wp_onInner_advance {ε : Type} {m : Method S ε Unit} {P : Prop}
    {durability? : ε → Option DurabilityError}
    (h : Method.wp m s.inner d (fun _ t d' => P ∧ Becomes s.inner known t d')
      (Refused durability? (Becomes s.inner (live s.inner))) (Stopped durability?)) :
    Method.wp (onInner m) s d (fun _ s' d' => P ∧ Advance s known s.adjacency s' d')
      (Refused durability? (Advance s (live s.inner) s.adjacency)) (Stopped durability?) :=
  Method.wp_onPart (h.mono (fun _ _ _ ⟨hP, hBecomes⟩ => ⟨hP, hBecomes, rfl, rfl⟩)
    (fun _ _ _ hRefused r hEq hNone => ⟨hRefused r hEq hNone, rfl, rfl⟩) fun _ _ _ hStopped =>
      hStopped)

/-- **What a call does.** Acknowledged, it was allowed and changes the live ids and the edges as it
says; refused, it changes nothing. -/
theorem wp_method (hValid : Valid s.inner d) (hApart : Apart s) (op : Op R Id V) :
    Method.wp op.method s d
      (fun _ s' d' => op.Allowed s ∧ Advance s (op.ids (live s.inner)) (op.edges s.adjacency) s' d')
      (fun e s' d' => e = .error none → Advance s (live s.inner) s.adjacency s' d')
      (fun e _ _ => e ≠ .error none) := by
  cases op with
  | insert record => exact wp_durability (wp_onInner_advance (laws.wp_insert hValid record))
  | replace record =>
    exact wp_durability (wp_onInner_advance ((laws.wp_replace hValid record).post fun _ _ _ h =>
      ⟨trivial, h⟩))
  | update id value =>
    exact wp_durability (wp_onInner_advance ((laws.wp_update hValid id value).post fun _ _ _ h =>
      ⟨trivial, h⟩))
  | delete id => exact wp_durability (wp_delete_advance hValid hApart id)
  | link a b =>
    refine wp_durability (Method.wp_bind ((wp_link_advance hValid hApart a b).mono
      (fun _ s' d' h => Method.wp_pure h) (fun e s' d' hRefused r hEq hNone => ?_)
        fun _ _ _ hStopped => hStopped))
    obtain ⟨rfl, rfl⟩ := hRefused r hEq hNone
    exact ⟨⟨hValid, rfl, rfl⟩, rfl, rfl⟩

theorem settled (hValid : Valid s.inner d) (hApart : Apart s) {op : Op R Id V} {plan : List Outcome}
    {acknowledged : Bool}
    (hSettle : Method.settle op.method plan (s, d) = some (acknowledged, s', d')) :
    (acknowledged = true ∧ op.Allowed s ∧
      Advance s (op.ids (live s.inner)) (op.edges s.adjacency) s' d') ∨
      (acknowledged = false ∧ Advance s (live s.inner) s.adjacency s' d') :=
  ((wp_method hValid hApart op).settled (fun _ _ hNe => hNe rfl) hSettle).imp_right
    fun ⟨hNot, hSame⟩ => ⟨hNot, hSame rfl⟩

end Op

/-! ### The invariant -/

/-- A layer whose relation is a simple graph over the live ids. -/
structure Sound (s : Symmetric S Id) (d : Disk) : Prop where
  valid : Valid s.inner d
  apart : Apart s
  edges : EdgesOver (live s.inner) false s.adjacency

omit [Serde Id] in
/-- The invariant after a call, from the edges the call leaves. -/
theorem Advance.sound (h : Advance s known m s' d') (hApart : Apart s)
    (hEdges : EdgesOver known false m) :
    Sound s' d' where
  valid := h.inner.valid
  apart := h.apart hApart
  edges := by rwa [h.adjacency, h.inner.live]

omit [RecordStore S R Id V] [Serde Id] in
theorem Sound.edges_op (h : Sound s d) {op : Op R Id V} (hAllowed : op.Allowed s) :
    EdgesOver (op.ids (live s.inner)) false (op.edges s.adjacency) := by
  cases op with
  | insert record => exact h.edges.mono (Set.subset_insert _ _)
  | replace record => exact h.edges
  | update id value => exact h.edges
  | delete id => exact h.edges.dropEdgesOf id
  | link a b => exact h.edges.addEdge hAllowed

/-! ### Creating and opening -/

variable (R) in
/-- **A layer that was created or opened** over a valid store, with edges between live distinct
records: those it was given, or what folding its log into the list it was given, or into that of its
blob, made of them. No list has an edge twice. -/
inductive Starts : Symmetric S Id → Disk → Prop where
  | created {inner relation path d plan s p} (hValid : Valid inner d)
    (hApart : ∀ file ∈ files inner, file ∉ blobFiles path)
    (hEdges : ListOver (live inner) false relation)
    (hRun : create R inner relation path ⟨(), d, plan⟩ = .ok s p) : Starts s p.disk
  | opened {inner relation path d plan s p} (hValid : Valid inner d)
    (hApart : ∀ file ∈ files inner, file ∉ blobFiles path)
    (hFold : FoldOver R (live inner) false path relation d)
    (hRun : openEdges R inner relation path ⟨(), d, plan⟩ = .ok s p) : Starts s p.disk
  | reopened {inner path d plan s p} (hValid : Valid inner d)
    (hApart : ∀ file ∈ files inner, file ∉ blobFiles path)
    (hFold : ∀ edges, BlobHolds R path edges d → FoldOver R (live inner) false path edges d)
    (hRun : openPortable R inner path ⟨(), d, plan⟩ = .ok s p) : Starts s p.disk

variable {inner : S} {path : Path} {relation : List (Id × Id)} {t : T}

omit [Serde Id] in
/-- A layer built from such a list is sound. -/
theorem sound_new [laws : LawfulRecordStore S] (hValid : Valid inner d)
    (hApart : ∀ file ∈ files inner, file ∉ blobFiles path)
    (hSame : ∀ file, file ∉ blobFiles path → d' file = d file)
    (hEdges : ListOver (live inner) false relation) :
    Sound ((new inner relation).withPath path) d' where
  valid := laws.valid_congr hValid fun file hFile => hSame file (hApart file hFile)
  apart path' hPath := by
    cases hPath
    exact hApart
  edges := hEdges.edgesOver

omit [RecordStore S R Id V] [StoreView S Id] in
/-- Opening, when what the log folds to may be. -/
theorem wp_openEdges (hFold : FoldOver R known false path relation d) :
    Method.wp (openEdges R inner relation path) t d
      (fun s _ d' => ∃ all, s = (new inner all).withPath path ∧ ListOver known false all ∧
        ∀ file, file ∉ blobFiles path → d' file = d file)
      (fun _ _ _ => True) fun _ _ _ => True := by
  refine Method.wp_bind (InsertLog.wp_readEntries_any (fun entries hEntries => ?_)
    (fun _ => trivial) fun _ => trivial)
  refine Method.wp_bind (EdgeBlob.format.touches_isCurrentAt.wp (F := blobFiles path)
    (fun current d₁ hRead => ?_) fun _ _ _ => trivial)
  have hClear {d₂ : Disk} (hSame : ∀ file, file ∉ blobFiles path → d₂ file = d file) :
      Method.wp (do
        InsertLog.clear (InsertLog.logPath path)
        return (new inner (mergeEdgeLists relation entries)).withPath path) t d₂
        (fun s _ d' => ∃ all, s = (new inner all).withPath path ∧ ListOver known false all ∧
          ∀ file, file ∉ blobFiles path → d' file = d file) (fun _ _ _ =>
            True) fun _ _ _ => True := by
    refine Method.wp_bind ((Method.touches_removeIfPresent (F := blobFiles path)
      (Or.inr (Or.inr (Or.inl rfl)))).wp
      (fun _ d₃ hLast => Method.wp_pure ⟨_, rfl, hFold entries hEntries, fun file hFile => ?_⟩)
      fun _ _ _ => trivial)
    rw [hLast file hFile, hSame file hFile]
  cases current with
  | true => exact hClear hRead
  | false =>
    refine Method.wp_bind ((EdgeBlob.touches_write (F := blobFiles path) (Or.inl rfl)
      (Or.inr (Or.inl rfl))).wp
      (fun _ d₂ hWritten => hClear fun file hFile => ?_) fun _ _ _ => trivial)
    rw [hWritten file hFile, hRead file hFile]

omit [RecordStore S R Id V] [StoreView S Id] in
/-- Opening from the blob, when what the log folds its edges to may be: the log is folded in twice.
-/
theorem wp_openPortable
    (hFold : ∀ edges, BlobHolds R path edges d → FoldOver R known false path edges d) :
    Method.wp (openPortable R inner path) t d
      (fun s _ d' => ∃ all, s = (new inner all).withPath path ∧ ListOver known false all ∧
        ∀ file, file ∉ blobFiles path → d' file = d file)
      (fun _ _ _ => True) fun _ _ _ => True := by
  refine Method.wp_bind (Method.wp_bind
    (EdgeBlob.format.wp_read (fun bytes persisted hFile hDecode => ?_)
    (fun _ => trivial) (fun _ _ _ _ => trivial) fun _ => trivial))
  refine Method.wp_bind (InsertLog.wp_readEntries_any (fun entries hEntries => Method.wp_pure ?_)
    (fun _ => trivial) fun _ => trivial)
  refine wp_openEdges fun again hAgain => ?_
  obtain rfl : entries = again := by
    rw [hEntries] at hAgain
    exact Except.ok.inj hAgain
  exact (hFold persisted ⟨bytes, hFile, hDecode⟩ entries hEntries).refold

/-- A layer that was created or opened is sound. -/
theorem Starts.sound [laws : LawfulRecordStore S] (h : Starts R s d) : Sound s d := by
  cases h with
  | @created inner relation path d plan s p hValid hApart hEdges hRun =>
    have hCreate : Method.wp (create R inner relation path) () d
        (fun s _ d' => s = (new inner relation).withPath path ∧ ∀ file, file ∉ blobFiles path →
          d' file = d file)
        (fun _ _ _ => True) fun _ _ _ => True := by
      refine Method.wp_bind ((Method.touches_removeIfPresent (F := blobFiles path)
        (Or.inr (Or.inr (Or.inl rfl)))).wp (fun _ d₁ hClear => ?_) fun _ _ _ => trivial)
      refine Method.wp_bind ((EdgeBlob.touches_write (F := blobFiles path) (Or.inl rfl)
        (Or.inr (Or.inl rfl))).wp
        (fun _ d₂ hWritten => Method.wp_pure ⟨rfl, fun file hFile => ?_⟩) fun _ _ _ => trivial)
      rw [hWritten file hFile, hClear file hFile]
    obtain ⟨rfl, hSame⟩ := hCreate.of_ok hRun
    exact sound_new hValid hApart hSame hEdges
  | opened hValid hApart hFold hRun =>
    obtain ⟨all, rfl, hAll, hSame⟩ := (wp_openEdges hFold).of_ok hRun
    exact sound_new hValid hApart hSame hAll
  | reopened hValid hApart hFold hRun =>
    obtain ⟨all, rfl, hAll, hSame⟩ := (wp_openPortable hFold).of_ok hRun
    exact sound_new hValid hApart hSame hAll

end Symmetric

end MultimodalDb
