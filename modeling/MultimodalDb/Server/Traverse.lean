import MultimodalDb.Lib.Breadth
import MultimodalDb.Lib.MapPairs
import MultimodalDb.Server.Client
import Mathlib.Data.Finset.Card

/-!
# Bounded traversal

The client's walk over the neighbors of a record, level by level, up to a depth and up to a number
of ids. The budget may run out inside a neighbor list, between two nodes and between two levels;
wherever it does, the ids at hand are those of the levels that are complete and a part of the next
(`Searching`), and that gives the result: each id once and at its distance, everything nearer than
the farthest, and as many as there are or as there may be.
-/

namespace MultimodalDb

open MapPairs

/-- The ids that were seen, each at its depth. -/
abbrev Visited := AList fun _ : RecordId => Nat

def Visited.len (visited : Visited) : Nat := visited.keys.length

/-- An order in which a hash map may give its pairs. -/
structure HashOrder where
  intoIter : Visited → List (RecordId × Nat)
  perm : ∀ visited, (intoIter visited).Perm (MapPairs.pairs visited)

namespace SchemaDrivenClient

open ClientM

/-- The neighbors that one hop of a walk asks for. -/
def hop (relation : Option String) (node : RecordId) : ClientM (List RecordId) :=
  match relation with
  | some label => neighborsByRelation node label
  | none => neighbors node

/-- The loop over the neighbors of a node. -/
def visitNeighbors (maxNodes depth : Nat) :
    List RecordId → Visited → List RecordId → Visited × List RecordId
  | [], visited, next => (visited, next)
  | neighbor :: rest, visited, next =>
    if maxNodes ≤ visited.len then (visited, next)
    else if neighbor ∈ visited then visitNeighbors maxNodes depth rest visited next
    else
      visitNeighbors maxNodes depth rest (visited.insert neighbor (depth + 1)) (next ++ [neighbor])

/-- The loop over a frontier. -/
def visitFrontier (relation : Option String) (maxNodes depth : Nat) :
    List RecordId → Visited → List RecordId → ClientM (Visited × List RecordId)
  | [], visited, next => return (visited, next)
  | node :: frontier, visited, next =>
    if maxNodes ≤ visited.len then return (visited, next)
    else do
      let neighbors ← hop relation node
      let (visited, next) := visitNeighbors maxNodes depth neighbors visited next
      visitFrontier relation maxNodes depth frontier visited next

/-- The loop over the depths, with the levels that are left. -/
def visitLevels (relation : Option String) (maxNodes : Nat) :
    Nat → Nat → Visited → List RecordId → ClientM Visited
  | 0, _, visited, _ => return visited
  | levels + 1, depth, visited, frontier =>
    if maxNodes ≤ visited.len then return visited
    else do
      let (visited, next) ← visitFrontier relation maxNodes depth frontier visited []
      visitLevels relation maxNodes levels (depth + 1) visited next

def traverse (order : HashOrder) (id : RecordId) (maxDepth maxNodes : Nat)
    (relation : Option String) : ClientM (List (RecordId × Nat)) := do
  let c ← get
  if !c.schema.relations.neighbors then throw (.unsupported "traverse")
  let visited ← visitLevels relation maxNodes maxDepth 0 (AList.singleton id 0) [id]
  return (order.intoIter visited).mergeSort fun a b => a.2 ≤ b.2

/-! ## Hops -/

/-- The request of a hop. -/
def hopRequest (relation : Option String) (node : RecordId) : Request :=
  match relation with
  | some label => .neighborsByRelation node label
  | none => .neighbors node

/-- The requests of a walk are answered with the neighbors in one graph. -/
def Answers (relation : Option String) (graph : RecordId → List RecordId) (req : Request)
    (reply : ClientReply req) : Prop :=
  ∀ node, req = hopRequest relation node → reply = .ok (.recordList (graph node))

/-- The client and its server can hop. -/
def CanHop (c : SchemaDrivenClient) (relation : Option String) : Prop :=
  c.schema.relations.neighbors = true ∧ (relation.isSome → 10 ≤ c.serverProtocolVersion)

variable {relation : Option String} {graph : RecordId → List RecordId} {c : SchemaDrivenClient}

theorem gives_hop (hCan : CanHop c relation) (node : RecordId) :
    Gives (Answers relation graph) (hop relation node) c fun r c' =>
      r = .ok (graph node) ∧ c' = c := by
  obtain ⟨hNeighbors, hVersion⟩ := hCan
  cases relation with
  | none =>
    refine gives_get ?_
    rw [hNeighbors]
    refine gives_roundtrip fun reply hReply => ?_
    rw [hReply node rfl]
    exact gives_pure ⟨rfl, rfl⟩
  | some label =>
    refine gives_get ?_
    have hEnough : ¬ c.serverProtocolVersion < 10 := UInt32.not_lt.mpr (hVersion rfl)
    rw [hNeighbors, if_neg hEnough]
    refine gives_roundtrip fun reply hReply => ?_
    rw [hReply node rfl]
    exact gives_pure ⟨rfl, rfl⟩

/-! ## What the walk knows -/

/-- The walk is at the nodes of depth `d`, and `next` lists those it found behind them. -/
structure Searching (graph : RecordId → List RecordId) (root : RecordId) (maxNodes d : Nat)
    (visited : Visited) (next : List RecordId) : Prop where
  layered : Breadth.Layered graph root d fun id => visited.lookup id
  next : ∀ id, id ∈ next ↔ visited.lookup id = some (d + 1)
  budget : visited.len ≤ maxNodes

/-- The ids of one map are in another, at the same depths. -/
def Kept (visited visited' : Visited) : Prop :=
  ∀ id n, visited.lookup id = some n → visited'.lookup id = some n

variable {root : RecordId} {maxNodes d : Nat} {visited visited' : Visited} {next : List RecordId}

theorem Kept.mem (h : Kept visited visited') {id : RecordId} (hMem : id ∈ visited) :
    id ∈ visited' := by
  obtain ⟨n, hn⟩ := Option.isSome_iff_exists.mp (AList.lookup_isSome.mpr hMem)
  exact AList.lookup_isSome.mp (by rw [h id n hn]; rfl)

theorem Kept.trans {visited'' : Visited} (h : Kept visited visited')
    (h' : Kept visited' visited'') :
    Kept visited visited'' :=
  fun id n hId => h' id n (h id n hId)

theorem len_insert {id : RecordId} (hNew : id ∉ visited) (n : Nat) :
    Visited.len (visited.insert id n) = visited.len + 1 := by
  have hKeys : id ∉ visited.keys := hNew
  rw [Visited.len, AList.keys_insert, List.length_cons, List.erase_of_not_mem hKeys, Visited.len]

/-- One more neighbor of a node of depth `d`. -/
theorem Searching.found (h : Searching graph root maxNodes d visited next)
    {node neighbor : RecordId}
    (hNode : visited.lookup node = some d) (hEdge : neighbor ∈ graph node)
    (hNew : neighbor ∉ visited) (hRoom : visited.len < maxNodes) :
    Searching graph root maxNodes d (visited.insert neighbor (d + 1)) (next ++ [neighbor]) := by
  refine ⟨?_, fun id => ?_, ?_⟩
  · rw [lookup_insert_eq_update]
    exact h.layered.add hNode hEdge (AList.lookup_eq_none.mpr hNew)
  · rw [List.mem_append, List.mem_singleton, h.next]
    by_cases hId : id = neighbor
    · subst hId
      simp
    · rw [AList.lookup_insert_ne hId]
      exact or_iff_left hId
  · rw [len_insert hNew]
    omega

theorem kept_insert {id : RecordId} (hNew : id ∉ visited) (n : Nat) :
    Kept visited (visited.insert id n) := by
  intro other k hOther
  have hNe : other ≠ id := by
    rintro rfl
    rw [AList.lookup_eq_none.mpr hNew] at hOther
    cases hOther
  rw [AList.lookup_insert_ne hNe]
  exact hOther

/-- The loop over the neighbors of a node of depth `d` finds them all or spends the budget. -/
theorem visitNeighbors_searching {node : RecordId}
    (h : Searching graph root maxNodes d visited next)
    (hNode : visited.lookup node = some d) {list : List RecordId} (hEdges : list ⊆ graph node)
    {next' : List RecordId}
    (hRun : visitNeighbors maxNodes d list visited next = (visited', next')) :
    Searching graph root maxNodes d visited' next' ∧ Kept visited visited' ∧
      (visited'.len = maxNodes ∨ ∀ id ∈ list, id ∈ visited') := by
  induction list generalizing visited next with
  | nil =>
    cases hRun
    exact ⟨h, fun _ _ hId => hId, Or.inr fun id hId => absurd hId List.not_mem_nil⟩
  | cons neighbor rest ih =>
    rw [visitNeighbors] at hRun
    obtain ⟨hEdge, hRest⟩ := List.cons_subset.mp hEdges
    split at hRun
    · next hFull =>
      cases hRun
      exact ⟨h, fun _ _ hId => hId, Or.inl (le_antisymm h.budget hFull)⟩
    · next hRoom =>
      split at hRun
      · next hSeen =>
        obtain ⟨hSearching, hKept, hDone⟩ := ih h hNode hRest hRun
        refine ⟨hSearching, hKept, hDone.imp_right fun hAll id hId => ?_⟩
        rcases List.mem_cons.mp hId with rfl | hId
        · exact hKept.mem hSeen
        · exact hAll id hId
      · next hNew =>
        have hFirst := kept_insert hNew (d + 1)
        obtain ⟨hSearching, hKept, hDone⟩ :=
          ih (h.found hNode hEdge hNew (by omega)) (hFirst _ _ hNode) hRest hRun
        refine ⟨hSearching, hFirst.trans hKept, hDone.imp_right fun hAll id hId => ?_⟩
        rcases List.mem_cons.mp hId with rfl | hId
        · exact hKept.mem (AList.mem_insert _ |>.mpr (Or.inl rfl))
        · exact hAll id hId

theorem visitFrontier_full (hFull : maxNodes ≤ visited.len) (frontier : List RecordId) :
    visitFrontier relation maxNodes d frontier visited next = pure (visited, next) := by
  cases frontier with
  | nil => rfl
  | cons node frontier => rw [visitFrontier, if_pos hFull]

/-- The loop over a frontier of depth `d` finds all of its neighbors or spends the budget. -/
theorem visitFrontier_searching (hCan : CanHop c relation) {frontier : List RecordId}
    (h : Searching graph root maxNodes d visited next)
    (hFrontier : ∀ node ∈ frontier, visited.lookup node = some d) :
    Gives (Answers relation graph) (visitFrontier relation maxNodes d frontier visited next) c
      fun r c' => c' = c ∧ ∃ visited' next', r = .ok (visited', next') ∧
        Searching graph root maxNodes d visited' next' ∧ Kept visited visited' ∧
          (visited'.len = maxNodes ∨ ∀ node ∈ frontier, ∀ id ∈ graph node, id ∈ visited') := by
  induction frontier generalizing visited next with
  | nil =>
    exact gives_pure ⟨rfl, visited, next, rfl, h, fun _ _ hId => hId,
      Or.inr fun node hNode => absurd hNode List.not_mem_nil⟩
  | cons node frontier ih =>
    rw [visitFrontier]
    split
    · next hFull =>
      exact gives_pure ⟨rfl, visited, next, rfl, h, fun _ _ hId => hId,
        Or.inl (le_antisymm h.budget hFull)⟩
    · next hRoom =>
      refine gives_bind (Program.Returns.mono (gives_hop hCan node) ?_)
      rintro ⟨_, _⟩ ⟨rfl, rfl⟩
      dsimp only
      generalize hStep : visitNeighbors maxNodes d (graph node) visited next = found
      obtain ⟨visited₁, next₁⟩ := found
      obtain ⟨hSearching, hKept, hFull | hAll⟩ :=
        visitNeighbors_searching h (hFrontier node List.mem_cons_self) (List.Subset.refl _) hStep
      · rw [visitFrontier_full hFull.ge]
        exact gives_pure ⟨rfl, visited₁, next₁, rfl, hSearching, hKept, Or.inl hFull⟩
      · have hRest : ∀ other ∈ frontier, visited₁.lookup other = some d := fun other hOther =>
          hKept other d (hFrontier other (List.mem_cons_of_mem _ hOther))
        refine Program.Returns.mono (ih hSearching hRest) ?_
        rintro ⟨_, _⟩ ⟨rfl, visited₂, next₂, rfl, hSearching₂, hKept₂, hDone⟩
        refine ⟨rfl, visited₂, next₂, rfl, hSearching₂, hKept.trans hKept₂, ?_⟩
        refine hDone.imp_right fun hOthers other hOther => ?_
        rcases List.mem_cons.mp hOther with rfl | hOther
        · exact fun id hId => hKept₂.mem (hAll id hId)
        · exact hOthers other hOther

/-- What the walk came to: everything within some depth and a part of what is one farther, none of
it too deep, and no budget left unless that depth is the deepest. -/
structure Walked (graph : RecordId → List RecordId) (root : RecordId) (maxDepth maxNodes : Nat)
    (visited : Visited) : Prop where
  layered : ∃ d, Breadth.Layered graph root d (fun id => visited.lookup id) ∧
    (visited.len = maxNodes ∨ d = maxDepth)
  deepest : ∀ id n, visited.lookup id = some n → n ≤ maxDepth
  budget : visited.len ≤ maxNodes

theorem visitLevels_full (hFull : maxNodes ≤ visited.len) (levels : Nat)
    (frontier : List RecordId) :
    visitLevels relation maxNodes levels d visited frontier = pure visited := by
  cases levels with
  | zero => rfl
  | succ levels => rw [visitLevels, if_pos hFull]

/-- **The loop over the depths**, from a complete level on. -/
theorem visitLevels_walked (hCan : CanHop c relation) {maxDepth levels : Nat}
    {frontier : List RecordId}
    (hLevels : d + levels = maxDepth) (h : Searching graph root maxNodes d visited [])
    (hFrontier : ∀ id, id ∈ frontier ↔ visited.lookup id = some d) :
    Gives (Answers relation graph) (visitLevels relation maxNodes levels d visited frontier) c
      fun r c' => c' = c ∧ ∃ visited', r = .ok visited' ∧
        Walked graph root maxDepth maxNodes visited' := by
  have hNone : ∀ {id n}, visited.lookup id = some n → n ≤ d := fun {id n} hId => by
    have hMost := h.layered.most hId
    have hNext := (h.next id).not.mp List.not_mem_nil
    rcases Nat.lt_or_eq_of_le hMost with hLt | rfl
    · omega
    · exact absurd hId hNext
  induction levels generalizing d visited frontier with
  | zero =>
    exact gives_pure ⟨rfl, visited, rfl, ⟨d, h.layered, Or.inr hLevels⟩,
      fun id n hId => by have := hNone hId; omega, h.budget⟩
  | succ levels ih =>
    rw [visitLevels]
    split
    · next hFull =>
      exact gives_pure ⟨rfl, visited, rfl, ⟨d, h.layered, Or.inl (le_antisymm h.budget hFull)⟩,
        fun id n hId => by have := hNone hId; omega, h.budget⟩
    · next hRoom =>
      refine gives_bind (Program.Returns.mono
        (visitFrontier_searching hCan h fun node hNode => (hFrontier node).mp hNode) ?_)
      rintro ⟨_, _⟩ ⟨rfl, visited', next', rfl, hSearching, hKept, hFull | hAll⟩
      · dsimp only
        rw [visitLevels_full hFull.ge]
        exact gives_pure ⟨rfl, visited', rfl, ⟨d, hSearching.layered, Or.inl hFull⟩,
          fun id n hId => by have := hSearching.layered.most hId; omega, hSearching.budget⟩
      · have hAt : ∀ {id}, visited'.lookup id = some d → id ∈ frontier := fun {id} hId =>
          (hFrontier id).mpr (h.layered.full (hSearching.layered.exact hId) le_rfl)
        have hLayered := hSearching.layered.next fun node hNode id hEdge =>
          AList.lookup_eq_none.not.mpr (not_not.mpr (hAll node (hAt hNode) id hEdge))
        have hNext : ∀ id, id ∈ ([] : List RecordId) ↔ visited'.lookup id = some (d + 1 + 1) :=
          fun id => iff_of_false List.not_mem_nil fun hId => by
            have := hSearching.layered.most hId
            omega
        exact ih (by omega) ⟨hLayered, hNext, hSearching.budget⟩ hSearching.next
          fun {id n} hId => hSearching.layered.most hId

/-! ## The result -/

theorem lookup_start (root id : RecordId) : (AList.singleton root 0 : Visited).lookup id =
    Function.update (fun _ => none) root (some 0) id :=
  congrFun (lookup_insert_eq_update (∅ : Visited) root 0) id

theorem lookup_start_eq_some {id : RecordId} {n : Nat} :
    (AList.singleton root 0 : Visited).lookup id = some n ↔ id = root ∧ n = 0 := by
  rw [lookup_start]
  by_cases hId : id = root
  · subst hId
    simp [eq_comm]
  · simp [hId]

theorem searching_start (root : RecordId) (hNodes : 1 ≤ maxNodes) :
    Searching graph root maxNodes 0 (AList.singleton root 0) [] := by
  refine ⟨?_, fun id => iff_of_false List.not_mem_nil fun hId => ?_, hNodes⟩
  · simp only [lookup_start]
    exact Breadth.Layered.start
  · have := (lookup_start_eq_some.mp hId).2
    omega

/-- As many ids as there are within the depth, or as there may be. -/
theorem Walked.length {maxDepth : Nat} (h : Walked graph root maxDepth maxNodes visited) :
    (MapPairs.pairs visited).length = min maxNodes (Breadth.ball graph root maxDepth).card := by
  obtain ⟨⟨d, hLayered, hEnd⟩, hDeepest, hBudget⟩ := h
  have hLen : (MapPairs.pairs visited).length = visited.len := by
    simp [MapPairs.pairs, Visited.len, AList.keys, List.keys]
  have hKeys : visited.keys.toFinset ⊆ Breadth.ball graph root maxDepth := fun id hId => by
    obtain ⟨n, hn⟩ := Option.isSome_iff_exists.mp
      (AList.lookup_isSome.mpr (show id ∈ visited from List.mem_toFinset.mp hId))
    exact Breadth.mem_ball.mpr ⟨n, hDeepest id n hn, hLayered.exact hn⟩
  have hCard : visited.keys.toFinset.card = visited.len :=
    List.toFinset_card_of_nodup visited.keys_nodup
  rw [hLen]
  rcases hEnd with hFull | rfl
  · have := Finset.card_le_card hKeys
    omega
  · have hAll : Breadth.ball graph root d ⊆ visited.keys.toFinset := fun id hId => by
      obtain ⟨n, hn, hNear⟩ := Breadth.mem_ball.mp hId
      exact List.mem_toFinset.mpr (AList.lookup_isSome.mp (by rw [hLayered.full hNear hn]; rfl))
    rw [← Finset.Subset.antisymm hKeys hAll, hCard]
    omega

/-- **Bounded traversal is breadth-first.** Behind a peer that answers the walk's requests with the
neighbors in one graph, the walk gives each id at most once and with its distance, which is at most
the depth; as many ids as the budget or the ball of that depth allows; everything nearer than the
farthest of them; and the nearer in front. -/
theorem traverse_breadth_first (order : HashOrder) (hCan : CanHop c relation) {σ : Type}
    {answer : (req : Request) → σ → ClientReply req × σ}
    (hAnswers : ∀ node s, (answer (hopRequest relation node) s).1 = .ok (.recordList (graph node)))
    (root : RecordId) (maxDepth : Nat) {maxNodes : Nat} (hNodes : 1 ≤ maxNodes) (s : σ) :
    ∃ result, (Program.run answer (traverse order root maxDepth maxNodes relation c) s).1 =
        (.ok result, c) ∧
      (result.map Prod.fst).Nodup ∧
      (∀ id d, (id, d) ∈ result → Breadth.Nearest graph root id d ∧ d ≤ maxDepth) ∧
      result.length = min maxNodes (Breadth.ball graph root maxDepth).card ∧
      (∀ far ∈ result, ∀ id d, Breadth.Nearest graph root id d → d < far.2 → (id, d) ∈ result) ∧
      result.Pairwise fun a b => a.2 ≤ b.2 := by
  have hGives : Gives (Answers relation graph) (traverse order root maxDepth maxNodes relation) c
      fun r c' => c' = c ∧ ∃ visited, Walked graph root maxDepth maxNodes visited ∧
        r = .ok ((order.intoIter visited).mergeSort fun a b => a.2 ≤ b.2) := by
    refine gives_get ?_
    rw [hCan.1]
    refine gives_bind (Program.Returns.mono (visitLevels_walked hCan (Nat.zero_add maxDepth)
      (searching_start root hNodes) fun id => ?_) ?_)
    · rw [lookup_start_eq_some, List.mem_singleton, and_iff_left rfl]
    · rintro ⟨_, _⟩ ⟨rfl, visited, rfl, hWalked⟩
      exact gives_pure ⟨rfl, visited, hWalked, rfl⟩
  have hReplies : ∀ req s, Answers relation graph req (answer req s).1 := fun req s node hReq => by
    rw [hReq]
    exact hAnswers node s
  obtain ⟨hSame, visited, hWalked, hResult⟩ := Program.Returns.run hGives hReplies s
  have hPerm : ((order.intoIter visited).mergeSort fun a b => a.2 ≤ b.2).Perm
      (MapPairs.pairs visited) :=
    (List.mergeSort_perm _ _).trans (order.perm visited)
  refine ⟨_, Prod.ext hResult hSame, ?_, fun id d hMem => ?_, ?_,
    fun far hFar id d hNear hLt => ?_, ?_⟩
  · exact (hPerm.map Prod.fst).nodup_iff.mpr (nodup_keys_pairs visited)
  · have hId := MapPairs.mem_pairs.mp (hPerm.mem_iff.mp hMem)
    obtain ⟨d', hLayered, -⟩ := hWalked.layered
    exact ⟨hLayered.exact hId, hWalked.deepest id d hId⟩
  · rw [hPerm.length_eq, hWalked.length]
  · have hAt := MapPairs.mem_pairs.mp (hPerm.mem_iff.mp hFar)
    obtain ⟨d', hLayered, -⟩ := hWalked.layered
    have hMost := hLayered.most hAt
    exact hPerm.mem_iff.mpr (MapPairs.mem_pairs.mpr (hLayered.full hNear (by omega)))
  · refine (List.pairwise_mergeSort ?_ ?_ _).imp fun h => of_decide_eq_true h
    · intro a b e hab hbe
      simp only [decide_eq_true_eq] at hab hbe ⊢
      omega
    · intro a b
      simp only [Bool.or_eq_true, decide_eq_true_eq]
      omega

/-- A triangle with a repeated edge and a loop, and one more record behind it. -/
def triangle (id : RecordId) : List RecordId :=
  if id = Uuid.ofNat 1 then [Uuid.ofNat 2, Uuid.ofNat 3, Uuid.ofNat 3, Uuid.ofNat 1]
  else if id = Uuid.ofNat 2 then [Uuid.ofNat 1, Uuid.ofNat 3]
  else if id = Uuid.ofNat 3 then [Uuid.ofNat 4]
  else []

def answerTriangle (req : Request) (s : Unit) : ClientReply req × Unit :=
  match req with
  | .neighbors id => (.ok (.recordList (triangle id)), s)
  | _ => (.error .frame, s)

def triangleClient : SchemaDrivenClient := ⟨⟨[], ⟨false, true⟩⟩, [], 22, none, ∅⟩

/-- Three of the four ids within two hops. -/
theorem traverse_triangle : ∃ result,
    (Program.run answerTriangle
        (traverse ⟨MapPairs.pairs,
          fun _ => List.Perm.refl _⟩ (Uuid.ofNat 1) 2 3 none triangleClient) ()).1 =
      (.ok result, triangleClient) ∧ result.length = 3 := by
  have hAnswers : ∀ node s, (answerTriangle (hopRequest none node) s).1 =
      .ok (.recordList (triangle node)) := fun _ _ => rfl
  have hCan : CanHop triangleClient none := ⟨rfl, by decide⟩
  obtain ⟨result, hRun, -, -, hLength, -⟩ := traverse_breadth_first ⟨MapPairs.pairs,
    fun _ => List.Perm.refl _⟩ hCan hAnswers (Uuid.ofNat 1) 2 (by decide : 1 ≤ 3) ()
  refine ⟨result, hRun, ?_⟩
  rw [hLength]
  decide

end SchemaDrivenClient

end MultimodalDb
