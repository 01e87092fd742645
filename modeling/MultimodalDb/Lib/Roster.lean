import Mathlib.Data.List.Basic
import Mathlib.Data.List.Induction

/-!
# Rosters

A roster lists who is in, in the order of joining: one who joins and is in already keeps the place,
one who leaves is struck out, and who comes back stands at the end. A log of such events run over a
roster decides who is in at the end, whatever was in before (`mem_run_iff`).

Running one log a second time, over its own result, moves those who left in it behind the others
(`run_run`). So the second run changes nothing exactly when no one who came back was overtaken by a
newcomer (`run_run_eq_iff`).
-/

namespace MultimodalDb

namespace Roster

variable {α : Type*}

inductive Event (α : Type*) where
  | join (x : α)
  | leave (x : α)
  deriving DecidableEq

open Event

def Event.who : Event α → α
  | join x => x
  | leave x => x

@[simp] theorem Event.who_join (x : α) : (join x).who = x := rfl

@[simp] theorem Event.who_leave (x : α) : (leave x).who = x := rfl

variable [DecidableEq α]

def step (roster : List α) : Event α → List α
  | join x => if x ∈ roster then roster else roster ++ [x]
  | leave x => roster.filter (· ≠ x)

def run (roster : List α) (log : List (Event α)) : List α := log.foldl step roster

/-- `x`, who left and came back, stands in front of the newcomer `y`: `x` joins behind its last
leaving, and `y`, who was not in before and never leaves, joins for the first time behind that. -/
def Overtakes (roster : List α) (log : List (Event α)) (y x : α) : Prop :=
  ∃ a b c, log = a ++ join x :: b ++ join y :: c ∧ leave x ∈ a ∧ leave x ∉ b ∧ leave x ∉ c ∧
    y ∉ roster ∧ leave y ∉ log ∧ join y ∉ a ∧ join y ∉ b

def Overtaken (roster : List α) (log : List (Event α)) : Prop :=
  ∃ x y, Overtakes roster log y x

variable {roster other : List α} {log more : List (Event α)} {x y : α} {e : Event α}

@[simp] theorem run_nil (roster : List α) : run roster [] = roster := rfl

theorem run_cons (roster : List α) (e : Event α) (log : List (Event α)) :
    run roster (e :: log) = run (step roster e) log := rfl

theorem run_append (roster : List α) (log more : List (Event α)) :
    run roster (log ++ more) = run (run roster log) more :=
  List.foldl_append

theorem run_snoc (roster : List α) (log : List (Event α)) (e : Event α) :
    run roster (log ++ [e]) = step (run roster log) e :=
  run_append ..

theorem step_join_mem (h : x ∈ roster) : step roster (join x) = roster := if_pos h

theorem step_join_new (h : x ∉ roster) : step roster (join x) = roster ++ [x] := if_neg h

/-! ## Who is in -/

theorem mem_step_join : x ∈ step roster (join y) ↔ x ∈ roster ∨ x = y := by
  by_cases hy : y ∈ roster
  · rw [step_join_mem hy]
    constructor
    · exact Or.inl
    · rintro (hx | rfl)
      · exact hx
      · exact hy
  · rw [step_join_new hy, List.mem_append, List.mem_singleton]

theorem mem_step_leave : x ∈ step roster (leave y) ↔ x ∈ roster ∧ x ≠ y := by
  simp [step]

/-- One who does not leave stays in. -/
theorem mem_run_of_mem (hMem : x ∈ roster) (hStays : leave x ∉ log) : x ∈ run roster log := by
  induction log generalizing roster with
  | nil => exact hMem
  | cons e log ih =>
    rw [List.mem_cons, not_or] at hStays
    refine ih ?_ hStays.2
    cases e with
    | join y => exact mem_step_join.mpr (Or.inl hMem)
    | leave y => exact mem_step_leave.mpr ⟨hMem, fun hEq => hStays.1 (by rw [hEq])⟩

/-- One who joins and does not leave behind that is in. -/
theorem mem_run_of_join (hStays : leave x ∉ more) : x ∈ run roster (log ++ join x :: more) := by
  rw [run_append, run_cons]
  exact mem_run_of_mem (mem_step_join.mpr (Or.inr rfl)) hStays

/-- **Who is in at the end** joined behind the last leaving, or was in and never left. -/
theorem mem_run_iff : x ∈ run roster log ↔
    (∃ a b, log = a ++ join x :: b ∧ leave x ∉ b) ∨ x ∈ roster ∧ leave x ∉ log := by
  constructor
  · intro h
    induction log using List.reverseRecOn with
    | nil => exact Or.inr ⟨h, List.not_mem_nil⟩
    | append_singleton log e ih =>
      rw [run_snoc] at h
      cases e with
      | join y =>
        rcases mem_step_join.mp h with hx | rfl
        · rcases ih hx with ⟨a, b, rfl, hb⟩ | ⟨hIn, hStays⟩
          · exact Or.inl ⟨a, b ++ [join y], by simp, by simpa using hb⟩
          · exact Or.inr ⟨hIn, by simpa using hStays⟩
        · exact Or.inl ⟨log, [], rfl, List.not_mem_nil⟩
      | leave y =>
        obtain ⟨hx, hNe⟩ := mem_step_leave.mp h
        rcases ih hx with ⟨a, b, rfl, hb⟩ | ⟨hIn, hStays⟩
        · exact Or.inl ⟨a, b ++ [leave y], by simp, by simp [hb, hNe]⟩
        · exact Or.inr ⟨hIn, by simp [hStays, hNe]⟩
  · rintro (⟨a, b, rfl, hb⟩ | ⟨hIn, hStays⟩)
    · exact mem_run_of_join hb
    · exact mem_run_of_mem hIn hStays

/-- Joining a roster that has everyone already changes nothing. -/
theorem run_of_joins (h : ∀ e ∈ log, ∃ x ∈ roster, e = join x) : run roster log = roster := by
  induction log with
  | nil => rfl
  | cons e log ih =>
    obtain ⟨x, hx, rfl⟩ := h e List.mem_cons_self
    rw [run_cons, step_join_mem hx]
    exact ih fun e he => h e (List.mem_cons_of_mem _ he)

/-! ## Parts of a roster -/

section Parts

variable (p : α → Bool)

theorem filter_step_of (h : p e.who) : (step roster e).filter p = step (roster.filter p) e := by
  cases e with
  | join x =>
    have hMem : x ∈ roster.filter p ↔ x ∈ roster :=
      List.mem_filter.trans (and_iff_left h)
    by_cases hx : x ∈ roster
    · rw [step_join_mem hx, step_join_mem (hMem.mpr hx)]
    · rw [step_join_new hx, step_join_new (mt hMem.mp hx), List.filter_append]
      exact congrArg _ (List.filter_cons_of_pos h)
  | leave x => exact List.filter_comm _ _ roster

theorem filter_step_of_not (h : ¬ p e.who) : (step roster e).filter p = roster.filter p := by
  cases e with
  | join x =>
    by_cases hx : x ∈ roster
    · rw [step_join_mem hx]
    · have hNone : [x].filter p = [] := List.filter_cons_of_neg h
      rw [step_join_new hx, List.filter_append, hNone, List.append_nil]
  | leave x =>
    rw [step, List.filter_filter]
    refine List.filter_congr fun y _ => ?_
    by_cases hy : y = x
    · subst hy
      have hOut : ¬ p y := h
      simp [hOut]
    · simp [hy]

/-- **A part of a roster** is run by the part of the log that is about it. -/
theorem filter_run (roster : List α) (log : List (Event α)) :
    (run roster log).filter p = run (roster.filter p) (log.filter fun e => p e.who) := by
  induction log generalizing roster with
  | nil => rfl
  | cons e log ih =>
    rw [run_cons, ih, List.filter_cons]
    by_cases hp : p e.who
    · rw [filter_step_of p hp, if_pos hp, run_cons]
    · rw [filter_step_of_not p hp, if_neg hp]

/-- Two rosters that agree but on ones who leave have the same result. -/
theorem run_congr (hAgree : roster.filter p = other.filter p)
    (hLeave : ∀ x, ¬ p x → leave x ∈ log) : run roster log = run other log := by
  induction log generalizing roster other p with
  | nil =>
    have hAll : ∀ x, p x := fun x => by_contra fun hx => by simpa using hLeave x hx
    rwa [List.filter_eq_self.mpr fun x _ => hAll x,
      List.filter_eq_self.mpr fun x _ => hAll x] at hAgree
  | cons e log ih =>
    rw [run_cons, run_cons]
    cases e with
    | join y =>
      refine ih p ?_ fun x hx => by simpa using hLeave x hx
      by_cases hp : p (join y).who
      · rw [filter_step_of p hp, filter_step_of p hp, hAgree]
      · rw [filter_step_of_not p hp, filter_step_of_not p hp, hAgree]
    | leave y =>
      -- from here on the rosters agree on `y` too
      refine ih (fun x => p x || x = y) ?_ fun x hx => ?_
      · have hOut (l : List α) : (step l (leave y)).filter (fun x => p x || x = y) =
            (l.filter p).filter (· ≠ y) := by
          rw [step, List.filter_filter, List.filter_filter]
          refine List.filter_congr fun x _ => ?_
          by_cases hx : x = y <;> simp [hx]
        rw [hOut, hOut, hAgree]
      · simp only [Bool.or_eq_true, decide_eq_true_eq, not_or] at hx
        simpa [hx.2] using hLeave x hx.1

end Parts

/-! ## Running a log twice -/

/-- Those in front who never leave keep their places; the rest of the log runs behind them. -/
theorem run_behind {front behind : List α} (hStay : ∀ x ∈ front, leave x ∉ log)
    (hApart : ∀ x ∈ behind, x ∉ front) :
    run (front ++ behind) log = front ++ run behind (log.filter fun e => e.who ∉ front) := by
  induction log generalizing behind with
  | nil => rfl
  | cons e log ih =>
    have hStay' : ∀ x ∈ front, leave x ∉ log := fun x hx hMem =>
      hStay x hx (List.mem_cons_of_mem _ hMem)
    rw [run_cons, List.filter_cons]
    by_cases hWho : e.who ∈ front
    · rw [if_neg (by simpa using hWho)]
      cases e with
      | join x =>
        have hIn : x ∈ front ++ behind := List.mem_append_left _ hWho
        rw [step_join_mem hIn]
        exact ih hStay' hApart
      | leave x => exact absurd List.mem_cons_self (hStay x hWho)
    · rw [if_pos (by simpa using hWho), run_cons]
      have hStep : step (front ++ behind) e = front ++ step behind e := by
        cases e with
        | join x =>
          by_cases hx : x ∈ behind
          · rw [step_join_mem hx, step_join_mem (List.mem_append_right _ hx)]
          · have hNew : x ∉ front ++ behind := by
              rw [List.mem_append, not_or]
              exact ⟨hWho, hx⟩
            rw [step_join_new hx, step_join_new hNew, List.append_assoc]
        | leave x =>
          have hKeep : front.filter (· ≠ x) = front := List.filter_eq_self.mpr fun y hy => by
            simpa using fun hEq : y = x => hWho (hEq ▸ hy)
          rw [step, List.filter_append, hKeep, step]
      rw [hStep]
      refine ih hStay' fun x hx => ?_
      cases e with
      | join y =>
        rcases mem_step_join.mp hx with hx | rfl
        · exact hApart x hx
        · exact hWho
      | leave y => exact hApart x (mem_step_leave.mp hx).1

/-- **The second run** moves those who left behind the others, both in their order. -/
theorem run_run (roster : List α) (log : List (Event α)) :
    run (run roster log) log =
      (run roster log).filter (leave · ∉ log) ++ (run roster log).filter (leave · ∈ log) := by
  let stays : List α := (run roster log).filter (leave · ∉ log)
  -- who left is struck out before coming back, so only the others matter at the start
  have hFirst : run (run roster log) log = run (stays ++ []) log := by
    refine run_congr (fun x => leave x ∉ log) ?_ fun x hx => by simpa using hx
    rw [List.append_nil, List.filter_filter]
    simp
  have hStay : ∀ x ∈ stays, leave x ∉ log := fun x hx => by
    simpa using (List.mem_filter.mp hx).2
  have hRest : (log.filter fun e => e.who ∉ stays) = log.filter fun e => leave e.who ∈ log := by
    refine List.filter_congr fun e he => ?_
    rw [decide_eq_decide]
    constructor
    · intro hOut
      by_contra hNever
      refine hOut (List.mem_filter.mpr ⟨?_, by simpa using hNever⟩)
      cases e with
      | join x =>
        obtain ⟨a, b, rfl⟩ := List.append_of_mem he
        refine mem_run_of_join fun hLater => hNever ?_
        simp [Event.who, hLater]
      | leave x => exact absurd he hNever
    · exact fun hLeft hIn => hStay _ hIn hLeft
  have hBack : run [] (log.filter fun e => leave e.who ∈ log) =
      (run roster log).filter (leave · ∈ log) := by
    rw [filter_run]
    refine run_congr (fun x => leave x ∉ log) ?_ fun x hx => ?_
    · rw [List.filter_filter]
      simp
    · have hLeft : leave x ∈ log := by simpa using hx
      exact List.mem_filter.mpr ⟨hLeft, decide_eq_true hLeft⟩
  rw [hFirst, run_behind hStay fun x hx => absurd hx List.not_mem_nil, hRest, hBack]

/-! ## When the second run changes nothing -/

omit [DecidableEq α] in
/-- An event about neither changes nothing for the two. -/
theorem Overtakes.snoc (h : Overtakes roster log y x) (hx : leave x ≠ e) (hy : leave y ≠ e) :
    Overtakes roster (log ++ [e]) y x := by
  obtain ⟨a, b, c, rfl, ha, hb, hc, hNew, hNever, hJoinA, hJoinB⟩ := h
  exact ⟨a, b, c ++ [e], by simp, ha, hb, by simp [hc, hx], hNew, by
    rw [List.mem_append, List.mem_singleton, not_or]
    exact ⟨hNever, hy⟩, hJoinA, hJoinB⟩

/-- Who left and stands in front of one who never leaves came back before the other was new. -/
theorem overtakes_of_sublist (hOrder : [x, y].Sublist (run roster log)) (hLeft : leave x ∈ log)
    (hNever : leave y ∉ log) : Overtakes roster log y x := by
  induction log using List.reverseRecOn with
  | nil => exact absurd hLeft List.not_mem_nil
  | append_singleton log e ih =>
    rw [List.mem_append, List.mem_singleton, not_or] at hNever
    rw [run_snoc] at hOrder
    cases e with
    | join z =>
      have hBefore : leave x ∈ log := by simpa using hLeft
      by_cases hz : [x, y].Sublist (run roster log)
      · exact (ih hz hBefore hNever.1).snoc (by simp) (by simp)
      · -- `y` is the one who joins, and `x` is in already
        have hNew : z ∉ run roster log := fun hMem => hz (by rwa [step_join_mem hMem] at hOrder)
        rw [step_join_new hNew, List.sublist_append_iff] at hOrder
        obtain ⟨l₁, l₂, hSplit, h₁, h₂⟩ := hOrder
        rw [List.sublist_singleton] at h₂
        obtain ⟨hx, rfl⟩ : x ∈ run roster log ∧ y = z := by
          rcases h₂ with rfl | rfl
          · rw [List.append_nil] at hSplit
            exact absurd (hSplit ▸ h₁) hz
          · obtain ⟨rfl, rfl⟩ : l₁ = [x] ∧ z = y := by
              cases l₁ with
              | nil => simp at hSplit
              | cons v l₁ =>
                obtain ⟨rfl, hRest⟩ : x = v ∧ [y] = l₁ ++ [z] := by simpa using hSplit
                cases l₁ with
                | nil => exact ⟨rfl, by simpa using hRest.symm⟩
                | cons w l₁ => simp at hRest
            exact ⟨List.singleton_sublist.mp h₁, rfl⟩
        have hOut : join y ∉ log := fun hMem => by
          obtain ⟨a, b, rfl⟩ := List.append_of_mem hMem
          exact hNew (mem_run_of_join fun h => hNever.1 (by simp [h]))
        have hFirst : y ∉ roster := fun hMem => hNew (mem_run_of_mem hMem hNever.1)
        rcases mem_run_iff.mp hx with ⟨a, b, rfl, hb⟩ | ⟨-, hStays⟩
        · have ha : leave x ∈ a := by simpa [hb] using hBefore
          rw [List.mem_append, List.mem_cons, not_or, not_or] at hOut
          exact ⟨a, b, [], rfl, ha, hb, List.not_mem_nil, hFirst, by simpa using hNever.1, hOut.1,
            hOut.2.2⟩
        · exact absurd hBefore hStays
    | leave z =>
      obtain ⟨hx, hxz⟩ := mem_step_leave.mp (hOrder.subset List.mem_cons_self)
      have hLeft : leave x ∈ log := by simpa [hxz] using hLeft
      exact (ih (hOrder.trans List.filter_sublist) hLeft hNever.1).snoc
        (by simpa using hxz) hNever.2

/-- The overtaken one stands in front of the newcomer at the end. -/
theorem Overtakes.sublist (h : Overtakes roster log y x) : [x, y].Sublist (run roster log) := by
  obtain ⟨a, b, c, rfl, ha, hb, hc, hNew, hNever, hJoinA, hJoinB⟩ := h
  have hIn : x ∈ run roster (a ++ join x :: b) := mem_run_of_join hb
  have hOut : y ∉ run roster (a ++ join x :: b) := by
    intro hy
    rcases mem_run_iff.mp hy with ⟨front, behind, hLog, -⟩ | ⟨hy, -⟩
    · have hJoin : join y ∈ a ++ join x :: b := by simp [hLog]
      have hxy : y = x := by simpa [hJoinA, hJoinB] using hJoin
      exact hNever (by simp [hxy, ha])
    · exact hNew hy
  let pair : α → Bool := fun z => z = x ∨ z = y
  -- the rest of the log is about neither, or lets them join once more
  have hPair : (run roster (a ++ join x :: b ++ join y :: c)).filter pair =
      (run roster (a ++ join x :: b) ++ [y]).filter pair := by
    rw [run_append, run_cons, step_join_new hOut, filter_run]
    refine run_of_joins fun e he => ?_
    obtain ⟨he, hWho⟩ := List.mem_filter.mp he
    refine ⟨e.who, List.mem_filter.mpr ⟨?_, hWho⟩, ?_⟩
    · rcases of_decide_eq_true hWho with hWho | hWho
      · rw [hWho]
        exact List.mem_append_left _ hIn
      · rw [hWho]
        exact List.mem_append_right _ (List.mem_singleton_self y)
    · cases e with
      | join z => rfl
      | leave z =>
        exfalso
        rcases of_decide_eq_true hWho with hz | hz
        · exact hc (hz ▸ he)
        · have hLater : leave y ∈ c := hz ▸ he
          exact hNever (by simp [hLater])
  have hx : [x].Sublist ((run roster (a ++ join x :: b)).filter pair) :=
    List.singleton_sublist.mpr (List.mem_filter.mpr ⟨hIn, by simp [pair]⟩)
  have hy : [y].filter pair = [y] := by simp [pair]
  have hFiltered : [x, y].Sublist ((run roster (a ++ join x :: b) ++ [y]).filter pair) := by
    rw [List.filter_append, hy]
    exact hx.append (List.Sublist.refl [y])
  rw [← hPair] at hFiltered
  exact hFiltered.trans List.filter_sublist

omit [DecidableEq α] in
/-- Those of one kind stand behind the others exactly when none of them stands in front of one. -/
theorem filter_append_filter_eq_iff (q : α → Prop) [DecidablePred q] (l : List α) :
    l.filter (fun x => ¬ q x) ++ l.filter (fun x => q x) = l ↔
      l.Pairwise fun x y => q x → q y := by
  constructor
  · intro h
    rw [← h, List.pairwise_append]
    refine ⟨?_, ?_, ?_⟩
    · exact List.pairwise_of_forall_mem_list fun x hx y _ hq =>
        absurd hq (by simpa using (List.mem_filter.mp hx).2)
    · exact List.pairwise_of_forall_mem_list fun x _ y hy _ => by
        simpa using (List.mem_filter.mp hy).2
    · exact fun x _ y hy _ => by simpa using (List.mem_filter.mp hy).2
  · intro h
    induction l with
    | nil => rfl
    | cons x l ih =>
      obtain ⟨hHead, hTail⟩ := List.pairwise_cons.mp h
      have hRest := ih hTail
      by_cases hx : q x
      · have hAll : l.filter (fun y => q y) = l := List.filter_eq_self.mpr fun y hy => by
          simpa using hHead y hy hx
        have hNone : l.filter (fun y => ¬ q y) = [] := List.filter_eq_nil_iff.mpr fun y hy => by
          simpa using hHead y hy hx
        simp only [List.filter_cons, hx, not_true_eq_false, decide_false, decide_true, if_true,
          hAll, hNone]
        rfl
      · simp only [List.filter_cons, hx, not_false_eq_true, decide_false, decide_true, if_true]
        exact congrArg (x :: ·) hRest

/-- **A second run changes nothing** exactly when no one was overtaken. -/
theorem run_run_eq_iff :
    run (run roster log) log = run roster log ↔ ¬ Overtaken roster log := by
  rw [run_run, filter_append_filter_eq_iff (leave · ∈ log), List.pairwise_iff_forall_sublist]
  constructor
  · intro h hOver
    obtain ⟨x, y, hOver⟩ := hOver
    have hOrder := hOver.sublist
    obtain ⟨a, b, c, rfl, ha, -, -, -, hNever, -⟩ := hOver
    exact hNever (h hOrder (by simp [ha]))
  · intro h x y hOrder hLeft
    by_contra hNever
    exact h ⟨x, y, overtakes_of_sublist hOrder hLeft hNever⟩

end Roster

end MultimodalDb
