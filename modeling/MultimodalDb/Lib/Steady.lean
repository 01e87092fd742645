import MultimodalDb.Lib.Files

/-!
# Programs that no call fails

Under a plan without failures a call does what it says or is the last one before a crash. A steady
program is no worse off: it crashes, or it ends as under the empty plan. What a precondition says of
the empty plan then holds of every plan without failures.

A calm program does not panic, whatever fails.
-/

namespace MultimodalDb

/-- No call of the plan fails. -/
def Unfailing (plan : List Outcome) : Prop := ∀ n, Outcome.failed n ∉ plan

theorem Unfailing.tail {plan : List Outcome} (h : Unfailing plan) : Unfailing plan.tail :=
  fun n hMem =>
  h n (List.mem_of_mem_tail hMem)

namespace Method

variable {S T ε ε' α β : Type}

/-- The end of a run is a crash, or the end of the same run under the empty plan. -/
def EndsAs (r r' : EStateM.Result (Stop ε) (Proc S) α) : Prop :=
  match r with
  | .error .crash _ => True
  | .error e p => r' = .error e ⟨p.self, p.disk, []⟩
  | .ok a p => Unfailing p.plan ∧ r' = .ok a ⟨p.self, p.disk, []⟩

/-- Without failures the program crashes, or ends as when every call does what it says. -/
def Steady (m : Method S ε α) : Prop :=
  ∀ s d plan, Unfailing plan → EndsAs (m ⟨s, d, plan⟩) (m ⟨s, d, []⟩)

variable {m : Method S ε α}

theorem steady_pure (a : α) : Steady (pure a : Method S ε α) := fun _ _ _ h => ⟨h, rfl⟩

theorem steady_fail (e : ε) : Steady (fail e : Method S ε α) := fun _ _ _ _ => rfl

theorem steady_self : Steady (self : Method S ε S) := fun _ _ _ h => ⟨h, rfl⟩

theorem steady_modifySelf (f : S → S) : Steady (modifySelf f : Method S ε Unit) :=
  fun _ _ _ h => ⟨h, rfl⟩

theorem steady_call {onError : IoError → ε} {act : Disk → Except IoError α × Disk}
    {torn : Nat → Disk → Disk} : Steady (call onError act torn : Method S ε α) := by
  have hDone (s : S) (d : Disk) (rest : List Outcome) (hRest : Unfailing rest) :
      EndsAs (returned onError s rest (act d)) (returned onError s [] (act d)) := by
    rcases act d with ⟨e | a, disk⟩
    · rfl
    · exact ⟨hRest, rfl⟩
  rintro s d (_ | ⟨_ | n | n, rest⟩) h
  · exact hDone s d [] h
  · exact hDone s d rest h.tail
  · exact (h n List.mem_cons_self).elim
  · trivial

theorem steady_storeBytes {act : Disk → Disk} {torn : Nat → Disk → Disk} :
    Steady (storeBytes act torn : Method S ε Unit) := by
  rintro s d (_ | ⟨_ | n | n, rest⟩) h
  · exact ⟨h, rfl⟩
  · exact ⟨h.tail, rfl⟩
  · exact (h n List.mem_cons_self).elim
  · trivial

theorem Steady.bind {f : α → Method S ε β} (h : Steady m) (hf : ∀ a, Steady (f a)) :
    Steady (m >>= f) := by
  intro s d plan hPlan
  have hm := h s d plan hPlan
  show EndsAs (EStateM.bind m f _) (EStateM.bind m f _)
  unfold EStateM.bind
  cases hRun : m ⟨s, d, plan⟩ with
  | error e p =>
    rw [hRun] at hm
    cases e with
    | crash => trivial
    | error e | panic =>
      rw [show m ⟨s, d, []⟩ = _ from hm]
      rfl
  | ok a p =>
    rw [hRun] at hm
    rw [hm.2]
    exact hf a p.self p.disk p.plan hm.1

theorem Steady.onPart {get : S → T} {set : T → S → S} {m : Method T ε α} (h : Steady m) :
    Steady (onPart get set m) := by
  intro s d plan hPlan
  have hm := h (get s) d plan hPlan
  unfold Method.onPart
  dsimp only
  cases hRun : m ⟨get s, d, plan⟩ with
  | error e p =>
    rw [hRun] at hm
    cases e with
    | crash => trivial
    | error e | panic =>
      rw [show m ⟨get s, d, []⟩ = _ from hm]
      rfl
  | ok a p =>
    rw [hRun] at hm
    rw [hm.2]
    exact ⟨hm.1, rfl⟩

theorem Steady.mapError {f : ε → ε'} (h : Steady m) : Steady (mapError f m) := by
  intro s d plan hPlan
  have hm := h s d plan hPlan
  unfold Method.mapError
  cases hRun : m ⟨s, d, plan⟩ with
  | error e p =>
    rw [hRun] at hm
    cases e with
    | crash => trivial
    | error e | panic =>
      rw [show m ⟨s, d, []⟩ = _ from hm]
      rfl
  | ok a p =>
    rw [hRun] at hm
    rw [hm.2]
    exact ⟨hm.1, rfl⟩

/-- **An error without a failure** is one that the program ends with on its own. -/
theorem Steady.error_nil (h : Steady m) {s : S} {d : Disk} {plan : List Outcome}
    (hPlan : Unfailing plan) {e : ε} {p : Proc S} (hRun : m ⟨s, d, plan⟩ = .error (.error e) p) :
    m ⟨s, d, []⟩ = .error (.error e) ⟨p.self, p.disk, []⟩ := by
  have hm := h s d plan hPlan
  rwa [hRun] at hm

/-! ## Calm programs -/

/-- However a run ends, it does not end in a panic. -/
def Calm (m : Method S ε α) : Prop := ∀ p q, m p ≠ .error .panic q

theorem calm_pure (a : α) : Calm (pure a : Method S ε α) := fun _ _ => nofun

theorem calm_call {onError : IoError → ε} {act : Disk → Except IoError α × Disk}
    {torn : Nat → Disk → Disk} : Calm (call onError act torn : Method S ε α) := by
  rintro ⟨s, d, plan⟩ q h
  unfold call at h
  dsimp only at h
  split at h
  · cases h
  · cases h
  · split at h <;> cases h

theorem Calm.bind {f : α → Method S ε β} (h : Calm m) (hf : ∀ a, Calm (f a)) : Calm (m >>= f) := by
  intro p q
  change EStateM.bind m f p ≠ _
  unfold EStateM.bind
  cases hRun : m p with
  | error e p' =>
    rintro ⟨⟩
    exact h p q hRun
  | ok a p' => exact hf a p' q

theorem calm_checked {x : Except Panic α} {a : α} (h : x = .ok a) :
    Calm (checked x : Method S ε α) := by
  rw [h]
  exact calm_pure a

end Method

end MultimodalDb
