import MultimodalDb.Generic.RecordStore
import MultimodalDb.Lib.FieldWrites
import MultimodalDb.Server.Protocol

/-!
# The stack behind a table

What an adapter's store holds: the records by id, and for each relation label the neighbors of each
id. An edge is kept under both of its endpoints. Under a foreign label the far endpoint is a record
of another table, so the stack does not look for it.

The files beneath may fail any write (`Storage`). A record is inserted or replaced, and an edge
linked, after its log entry is durable; a delete is made durable first for the record and then for
its edges, label by label, and stops at the label whose log fails.
-/

namespace MultimodalDb

/-- The neighbors of each id under one label. -/
abbrev Adjacency := RecordId → List RecordId

/-- Every edge touching `id` goes. -/
def dropEdgesOf (adjacency : Adjacency) (id : RecordId) : Adjacency := fun other =>
  if other = id then
    []
  else if other ∈ adjacency id then
    (adjacency other).filter (· ≠ id)
  else
    adjacency other

def pushEdge (adjacency : Adjacency) (a b : RecordId) : Adjacency :=
  let pushed := Function.update adjacency a (adjacency a ++ [b])
  Function.update pushed b (pushed b ++ [a])

inductive LinkError where
  | invalidLabel (label : String)
  | unknownRecord (id : RecordId)
  | selfLoop (id : RecordId)
  deriving DecidableEq

/-- What the storage does for one write. -/
inductive Storage where
  | works
  /-- The first call that the write makes fails, and nothing is done. -/
  | refuses
  /-- The first call works, which makes a record's delete durable or creates a label. Of the calls
  behind it those for the labels listed work, and then one fails. -/
  | stops (done : List String)
  deriving DecidableEq

structure Stack (R : Type) where
  rows : RecordId → Option R
  /-- The labels there are, each with its adjacency. -/
  adjacency : List (String × Adjacency)

namespace Stack

variable {R : Type}

def empty : Stack R := ⟨fun _ => none, []⟩

/-- The adjacency of a label, if there is one. -/
def under (s : Stack R) (label : String) : Option Adjacency := s.adjacency.lookup label

/-- The neighbors under a label; a label there is not has none. -/
def edges (s : Stack R) (label : String) : Adjacency := (s.under label).getD fun _ => []

def setRow (s : Stack R) (id : RecordId) (row : Option R) : Stack R :=
  { s with rows := Function.update s.rows id row }

def mapEdges (s : Stack R) (f : String → Adjacency → Adjacency) : Stack R :=
  { s with adjacency := s.adjacency.map fun (label, adjacency) => (label, f label adjacency) }

/-- `update`: whether there was a record to update. -/
def update {V : Type} (set : V → R → R) (s : Stack R) (id : RecordId) (value : V) :
    Bool × Stack R :=
  ((s.rows id).isSome, { s with rows := FieldWrites.write set s.rows id value })

/-- `delete`: the record and, under every label, its edges. -/
def delete (s : Stack R) (id : RecordId) : Bool × Stack R :=
  match s.rows id with
  | none => (false, s)
  | some _ => (true, (s.setRow id none).mapEdges fun _ adjacency => dropEdgesOf adjacency id)

/-- `detach`: the number of edges dropped, or `none` for a label there is not. -/
def detach (s : Stack R) (label : String) (id : RecordId) : Option Nat × Stack R :=
  match s.under label with
  | none => (none, s)
  | some adjacency =>
    (some (adjacency id).length,
      s.mapEdges fun other adjacency =>
        if other = label then dropEdgesOf adjacency id else adjacency)

/-- What is left of a delete that stops: the record is gone, and its edges under these labels. -/
def deletePart (s : Stack R) (id : RecordId) (done : List String) : Stack R :=
  (s.setRow id none).mapEdges fun label adjacency =>
    if done.contains label then dropEdgesOf adjacency id else adjacency

/-- Every edge of a record is under one of these labels. -/
def edgesWithin (s : Stack R) (id : RecordId) (done : List String) : Bool :=
  s.adjacency.all fun (label, adjacency) => done.contains label || (adjacency id).isEmpty

/-- A label there is not is created, without edges. -/
def withLabel (s : Stack R) (label : String) : Stack R :=
  if (s.under label).isNone then
    { s with adjacency := s.adjacency ++ [(label, fun _ => [])] }
  else
    s

/-- `link`: the endpoints are checked, the label is created, and the edge is added unless it is
there. -/
def link (foreign : String → Bool) (s : Stack R) (label : String) (a b : RecordId) :
    Except LinkError LinkOutcome × Stack R :=
  if validRelationLabel label = false then
    (.error (.invalidLabel label), s)
  else if (s.rows a).isNone then
    (.error (.unknownRecord a), s)
  else if foreign label = false ∧ (s.rows b).isNone then
    (.error (.unknownRecord b), s)
  else if a = b then
    (.error (.selfLoop a), s)
  else
    let s := s.withLabel label
    if b ∈ s.edges label a then
      (.ok .alreadyLinked, s)
    else
      (.ok .linked,
        s.mapEdges fun other adjacency =>
          if other = label then pushEdge adjacency a b else adjacency)

/-! ## Edges -/

@[simp] theorem rows_mapEdges (s : Stack R) (f : String → Adjacency → Adjacency) :
    (s.mapEdges f).rows = s.rows := rfl

@[simp] theorem under_setRow (s : Stack R) (id : RecordId) (row : Option R) (label : String) :
    (s.setRow id row).under label = s.under label := rfl

@[simp] theorem rows_setRow (s : Stack R) (id : RecordId) (row : Option R) :
    (s.setRow id row).rows = Function.update s.rows id row := rfl

@[simp] theorem edges_setRow (s : Stack R) (id : RecordId) (row : Option R) (label : String) :
    (s.setRow id row).edges label = s.edges label := rfl

theorem under_mapEdges (s : Stack R) (f : String → Adjacency → Adjacency) (label : String) :
    (s.mapEdges f).under label = (s.under label).map (f label) := by
  unfold under mapEdges
  dsimp only
  induction s.adjacency with
  | nil => rfl
  | cons e rest ih =>
    rw [List.map_cons, List.lookup_cons, List.lookup_cons, ih]
    by_cases hLabel : label = e.1
    · rw [hLabel, beq_self_eq_true]
      rfl
    · rw [beq_eq_false_iff_ne.mpr hLabel]

/-- What keeps a label without edges one is done to the edges of each label. -/
theorem edges_mapEdges (s : Stack R) {f : String → Adjacency → Adjacency} {label : String}
    (hNone : f label (fun _ => []) = fun _ => []) :
    (s.mapEdges f).edges label = f label (s.edges label) := by
  unfold edges
  rw [under_mapEdges]
  cases s.under label with
  | none => exact hNone.symm
  | some adjacency => rfl

theorem dropEdgesOf_of_isEmpty {adjacency : Adjacency} {id : RecordId}
    (h : adjacency id = []) : dropEdgesOf adjacency id = adjacency := by
  funext other
  unfold dropEdgesOf
  split
  · next hId => rw [hId, h]
  · rw [h, if_neg List.not_mem_nil]

theorem edges_delete {s : Stack R} {id : RecordId} {r : R} (hRow : s.rows id = some r)
    (label : String) : (s.delete id).2.edges label = dropEdgesOf (s.edges label) id := by
  rw [delete, hRow]
  exact edges_mapEdges (f := fun _ adjacency => dropEdgesOf adjacency id) _
    (dropEdgesOf_of_isEmpty rfl)

theorem edges_deletePart (s : Stack R) (id : RecordId) (done : List String) (label : String) :
    (s.deletePart id done).edges label =
      if done.contains label then dropEdgesOf (s.edges label) id else s.edges label := by
  refine edges_mapEdges (f := fun label adjacency =>
    if done.contains label then dropEdgesOf adjacency id else adjacency) _ ?_
  split
  · exact dropEdgesOf_of_isEmpty rfl
  · rfl

@[simp] theorem rows_withLabel (s : Stack R) (label : String) :
    (s.withLabel label).rows = s.rows := by
  unfold withLabel
  split <;> rfl

theorem under_withLabel (s : Stack R) (label : String) :
    (s.withLabel label).under label = some (s.edges label) := by
  unfold withLabel edges
  split
  · next hNone =>
    rw [Option.isNone_iff_eq_none] at hNone
    unfold under at *
    rw [List.lookup_append, hNone, Option.none_or, List.lookup_cons_self]
    rfl
  · next hSome =>
    obtain ⟨adjacency, hUnder⟩ :=
      Option.ne_none_iff_exists'.mp (mt Option.isNone_iff_eq_none.mpr hSome)
    rw [hUnder]
    rfl

/-- A label that is created has no edges. -/
@[simp] theorem edges_withLabel (s : Stack R) (label other : String) :
    (s.withLabel label).edges other = s.edges other := by
  unfold withLabel
  split
  · next hNone =>
    rw [Option.isNone_iff_eq_none] at hNone
    unfold edges under at *
    rw [List.lookup_append]
    by_cases hOther : other = label
    · rw [hOther, hNone, Option.none_or, List.lookup_cons_self]
      rfl
    · rw [List.lookup_cons, beq_eq_false_iff_ne.mpr hOther, List.lookup_nil, Option.or_none]
  · rfl

/-! ## Links -/

/-- What `link` asks of the endpoints. -/
def Linkable (foreign : String → Bool) (s : Stack R) (label : String) (a b : RecordId) : Prop :=
  (s.rows a).isSome = true ∧ (foreign label = true ∨ (s.rows b).isSome = true) ∧ a ≠ b

instance (foreign : String → Bool) (s : Stack R) (label : String) (a b : RecordId) :
    Decidable (Linkable foreign s label a b) :=
  inferInstanceAs (Decidable (_ ∧ _ ∧ _))

/-- **Linking.** Under a label that is one, a link fails exactly when its endpoints are not what it
asks for, and then changes nothing. Else the edge is there, or is added. -/
theorem link_cases (foreign : String → Bool) (s : Stack R) {label : String}
    (hLabel : validRelationLabel label = true) (a b : RecordId) :
    (¬ Linkable foreign s label a b ∧ ∃ e, s.link foreign label a b = (.error e, s)) ∨
      (Linkable foreign s label a b ∧ b ∈ s.edges label a ∧
        ∃ s', s.link foreign label a b = (.ok .alreadyLinked, s') ∧ s'.rows = s.rows ∧
          ∀ other, s'.edges other = s.edges other) ∨
      (Linkable foreign s label a b ∧ b ∉ s.edges label a ∧
        ∃ s', s.link foreign label a b = (.ok .linked, s') ∧ s'.rows = s.rows ∧
          ∀ other, s'.edges other =
            if other = label then pushEdge (s.edges label) a b else s.edges other) := by
  unfold link
  rw [if_neg (by rw [hLabel]; exact Bool.noConfusion)]
  split
  · next hLeft =>
    refine Or.inl ⟨fun h => ?_, _, rfl⟩
    rw [Option.isNone_iff_eq_none] at hLeft
    have hSome := h.1
    rw [hLeft] at hSome
    cases hSome
  · next hLeft =>
    split
    · next hRight =>
      refine Or.inl ⟨fun h => ?_, _, rfl⟩
      obtain ⟨hOwn, hNone⟩ := hRight
      rw [Option.isNone_iff_eq_none] at hNone
      rcases h.2.1 with hForeign | hSome
      · rw [hForeign] at hOwn
        cases hOwn
      · rw [hNone] at hSome
        cases hSome
    · next hRight =>
      split
      · next hSelf => exact Or.inl ⟨fun h => h.2.2 hSelf, _, rfl⟩
      · next hSelf =>
        have hLinkable : Linkable foreign s label a b := by
          refine ⟨?_, ?_, hSelf⟩
          · simpa [Option.isSome_iff_ne_none] using hLeft
          · simpa [or_iff_not_imp_left, Option.isSome_iff_ne_none] using hRight
        refine Or.inr ?_
        dsimp only
        rw [edges_withLabel]
        split
        · next hEdge => exact Or.inl ⟨hLinkable, hEdge, _, rfl, rows_withLabel s label,
            edges_withLabel s label⟩
        · next hEdge =>
          refine Or.inr ⟨hLinkable, hEdge, _, rfl, rows_withLabel s label, fun other => ?_⟩
          -- the label is there by now, so the edge is pushed to its edges
          unfold edges
          rw [under_mapEdges]
          by_cases hOther : other = label
          · rw [hOther, if_pos rfl, under_withLabel, Option.map_some, if_pos rfl]
            rfl
          · rw [if_neg hOther, ← edges, ← edges_withLabel s label other, edges]
            cases (s.withLabel label).under other with
            | none => rfl
            | some adjacency => exact if_neg hOther

end Stack

end MultimodalDb
