import MultimodalDb.Lib.Files
import Mathlib.Data.Set.Lattice

/-!
# Calls and the files they touch

A caller sees of a method that it returned, that it was refused, or that storage stopped it.
`settle` is one call that storage did not stop; its error type is `Option ε`, with `none` for a
refusal.

`Touches F m` says that `m` leaves its object alone and no file outside `F` changes, however it
ends. It is kept by every way of putting programs together, so that it is read off from a program's
parts.
-/

namespace MultimodalDb

namespace Method

variable {S T ε ε' α β : Type}

/-! ## Calls -/

/-- The object and the files after a call that returned (`true`) or was refused (`false`). -/
def settle (m : Method S (Option ε) Unit) (plan : List Outcome) (st : S × Disk) :
    Option (Bool × S × Disk) :=
  match m ⟨st.1, st.2, plan⟩ with
  | .ok _ p => some (true, p.self, p.disk)
  | .error (.error none) p => some (false, p.self, p.disk)
  | .error _ _ => none

/-- The object a constructor gives and the files after it, unless it failed. -/
def built (m : Method Unit ε α) (plan : List Outcome) (d : Disk) : Option (α × Disk) :=
  match m ⟨(), d, plan⟩ with
  | .ok a p => some (a, p.disk)
  | .error _ _ => none

theorem built_eq_some {m : Method Unit ε α} {plan : List Outcome} {d : Disk} {st : α × Disk} :
    built m plan d = some st ↔ ∃ p, m ⟨(), d, plan⟩ = .ok st.1 p ∧ p.disk = st.2 := by
  unfold built
  split
  · next a p hRun => simp [hRun, Prod.ext_iff]
  · next e p hRun => simp [hRun]

theorem wp.post {m : Method S ε α} {s : S} {d : Disk} {Q Q' : α → S → Disk → Prop}
    {A C : Stop ε → S → Disk → Prop} (h : wp m s d Q A C) (hQ : ∀ a s d, Q a s d → Q' a s d) :
    wp m s d Q' A C :=
  h.mono hQ (fun _ _ _ hStop => hStop) fun _ _ _ hStop => hStop

/-- What a call that storage did not stop did. -/
theorem wp.settled {m : Method S (Option ε) Unit} {s s' : S} {d d' : Disk}
    {Q : Unit → S → Disk → Prop} {A C : Stop (Option ε) → S → Disk → Prop} (h : wp m s d Q A C)
    (hStop : ∀ s d, ¬ C (.error none) s d) {plan : List Outcome} {acknowledged : Bool}
    (hSettle : settle m plan (s, d) = some (acknowledged, s', d')) :
    (acknowledged = true ∧ Q () s' d') ∨ (acknowledged = false ∧ A (.error none) s' d') := by
  unfold settle at hSettle
  split at hSettle
  · next p hRun =>
    cases hSettle
    exact Or.inl ⟨rfl, h.of_ok hRun⟩
  · next p hRun =>
    cases hSettle
    refine Or.inr ⟨rfl, (h.of_error hRun).resolve_right (hStop _ _)⟩
  · cases hSettle

/-- What holds however a program stops holds of the error it had before. -/
theorem onMapped_of_forall {f : ε → ε'} {C : Stop ε' → S → Disk → Prop} {s : S} {d : Disk}
    (h : ∀ e, C e s d) (e : Stop ε) : onMapped f C e s d := by
  cases e <;> exact h _

/-- A method of a component in two parts. -/
theorem onPart_bind {get : S → T} {set : T → S → S} (hGet : ∀ t s, get (set t s) = t)
    (hSet : ∀ t t' s, set t' (set t s) = set t' s) (m : Method T ε α) (f : α → Method T ε β) :
    onPart get set (m >>= f) = onPart get set m >>= fun a => onPart get set (f a) := by
  funext p
  change onPart get set (EStateM.bind m f) p = EStateM.bind (onPart get set m) _ p
  unfold EStateM.bind onPart
  dsimp only
  cases hRun : m ⟨get p.self, p.disk, p.plan⟩ with
  | error e q => rfl
  | ok a q =>
    dsimp only
    rw [hGet]
    cases f a q <;> simp only [hSet]

/-! ## Loops -/

section Loops

variable {s : S} {d : Disk} {A C : Stop ε → S → Disk → Prop}

/-- A loop keeps what each of its turns keeps of the elements that are left. -/
theorem wp_forM {f : α → Method S ε Unit} {I : List α → S → Disk → Prop}
    (hStep : ∀ a rest s d, I (a :: rest) s d → wp (f a) s d (fun _ s' d' => I rest s' d') A C)
    (list : List α) (h : I list s d) : wp (list.forM f) s d (fun _ s' d' => I [] s' d') A C := by
  induction list generalizing s d with
  | nil => exact wp_pure h
  | cons a list ih => exact wp_bind ((hStep a list s d h).post fun _ _ _ => ih)

/-- The same of a loop that collects its results. -/
theorem wp_mapM {f : α → Method S ε β} {I : List α → List β → S → Disk → Prop}
    (hStep : ∀ a rest done s d, I (a :: rest) done s d →
      wp (f a) s d (fun b s' d' => I rest (done ++ [b]) s' d') A C)
    (list : List α) (done : List β) (h : I list done s d) :
    wp (list.mapM f) s d (fun bs s' d' => I [] (done ++ bs) s' d') A C := by
  induction list generalizing s d done with
  | nil =>
    rw [List.mapM_nil]
    exact wp_pure (by rwa [List.append_nil])
  | cons a list ih =>
    rw [List.mapM_cons]
    refine wp_bind ((hStep a list done s d h).post fun b s₁ d₁ hNext => ?_)
    refine wp_bind ((ih (done ++ [b]) hNext).post fun bs s₂ d₂ hEnd => ?_)
    rw [List.append_assoc] at hEnd
    exact wp_pure hEnd

end Loops

/-! ## Footprints -/

/-- The program leaves its object alone, and every file outside `F`. -/
def Touches (F : Set Path) (m : Method S ε α) : Prop :=
  ∀ p, (final (m p)).self = p.self ∧ (∀ path, path ∉ F → (final (m p)).disk path = p.disk path) ∧
    (p.plan = [] → (final (m p)).plan = [])

variable {F G : Set Path} {m : Method S ε α}

theorem touches_pure (F : Set Path) (a : α) : Touches F (pure a : Method S ε α) := fun _ =>
  ⟨rfl, fun _ _ => rfl, id⟩

theorem touches_fail (F : Set Path) (e : ε) : Touches F (fail e : Method S ε α) := fun _ =>
  ⟨rfl, fun _ _ => rfl, id⟩

theorem touches_ofExcept (F : Set Path) (x : Except ε α) :
    Touches F (ofExcept x : Method S ε α) := by
  cases x with
  | ok a => exact touches_pure F a
  | error e => exact touches_fail F e

theorem Touches.bind {f : α → Method S ε β} (h : Touches F m) (hf : ∀ a, Touches F (f a)) :
    Touches F (m >>= f) := by
  intro p
  have hm := h p
  rw [show (m >>= f) p = EStateM.bind m f p from rfl, EStateM.bind]
  cases hRun : m p with
  | error e q =>
    rw [hRun] at hm
    exact hm
  | ok a q =>
    rw [hRun] at hm
    have hRest := hf a q
    exact ⟨hRest.1.trans hm.1, fun path hPath => (hRest.2.1 path hPath).trans (hm.2.1 path hPath),
      fun hPlan => hRest.2.2 (hm.2.2 hPlan)⟩

theorem Touches.mapError {f : ε → ε'} (h : Touches F m) : Touches F (mapError f m) := by
  intro p
  have hm := h p
  unfold Method.mapError
  cases hRun : m p with
  | ok a q =>
    rw [hRun] at hm
    exact hm
  | error e q =>
    rw [hRun] at hm
    cases e <;> exact hm

theorem Touches.attempt (h : Touches F m) : Touches F (attempt m : Method S ε' (Option α)) := by
  intro p
  have hm := h p
  unfold Method.attempt
  cases hRun : m p with
  | ok a q =>
    rw [hRun] at hm
    exact hm
  | error e q =>
    rw [hRun] at hm
    cases e <;> exact hm

theorem Touches.forM {f : α → Method S ε Unit} (list : List α) (h : ∀ a ∈ list, Touches F (f a)) :
    Touches F (list.forM f) := by
  induction list with
  | nil => exact touches_pure F ()
  | cons a list ih =>
    exact (h a List.mem_cons_self).bind fun _ => ih fun b hb => h b (List.mem_cons_of_mem a hb)

theorem touches_call {onError : IoError → ε} {act : Disk → Except IoError α × Disk}
    {torn : Nat → Disk → Disk} (hAct : ∀ d path, path ∉ F → (act d).2 path = d path)
    (hTorn : ∀ n d path, path ∉ F → torn n d path = d path) :
    Touches F (call onError act torn : Method S ε α) := by
  have hDone (p : Proc S) (rest : List Outcome) (hRest : p.plan = [] → rest = []) :
      let r := returned onError p.self rest (act p.disk)
      (final r).self = p.self ∧ (∀ path, path ∉ F → (final r).disk path = p.disk path) ∧
        (p.plan = [] → (final r).plan = []) := by
    have hFiles := hAct p.disk
    rcases hRun : act p.disk with ⟨e | a, disk⟩
    · rw [hRun] at hFiles
      exact ⟨rfl, hFiles, hRest⟩
    · rw [hRun] at hFiles
      exact ⟨rfl, hFiles, hRest⟩
  rintro ⟨s, d, _ | ⟨_ | n | n, rest⟩⟩
  · exact hDone ⟨s, d, []⟩ [] id
  · exact hDone ⟨s, d, .done :: rest⟩ rest (absurd · (List.cons_ne_nil _ _))
  · exact ⟨rfl, hTorn n d, (absurd · (List.cons_ne_nil _ _))⟩
  · exact ⟨rfl, hTorn n d, (absurd · (List.cons_ne_nil _ _))⟩

/-- What a program may touch is all that its end can differ in. -/
theorem Touches.wp {s : S} {d : Disk} {Q : α → S → Disk → Prop} {A C : Stop ε → S → Disk → Prop}
    (h : Touches F m) (hOk : ∀ a d', (∀ path, path ∉ F → d' path = d path) → Q a s d')
    (hStop : ∀ e d', (∀ path, path ∉ F → d' path = d path) → A e s d') : wp m s d Q A C := by
  intro plan
  have hm := h ⟨s, d, plan⟩
  cases hRun : m ⟨s, d, plan⟩ with
  | ok a p =>
    rw [hRun] at hm
    obtain ⟨hSelf, hDisk, hPlan⟩ := hm
    refine ⟨?_, hPlan⟩
    rw [show p.self = s from hSelf]
    exact hOk a _ hDisk
  | error e p =>
    rw [hRun] at hm
    obtain ⟨hSelf, hDisk, hPlan⟩ := hm
    refine Or.inl ⟨?_, hPlan⟩
    rw [show p.self = s from hSelf]
    exact hStop e _ hDisk

/-! ### File calls -/

section FileCalls

variable {onError : IoError → ε} {path : Path}

/-- A call without partial effects that leaves the disk as it is. -/
theorem touches_of_same {act : Disk → Except IoError α × Disk} (hAct : ∀ d, (act d).2 = d) :
    Touches F (call onError act (fun _ d => d) : Method S ε α) :=
  touches_call (fun d _ _ => by rw [hAct]) fun _ _ _ _ => rfl

theorem touches_readFile : Touches F (readFile onError path : Method S ε Bytes) :=
  touches_of_same fun _ => rfl

theorem touches_readIfPresent :
    Touches F (readIfPresent onError path : Method S ε (Option Bytes)) :=
  touches_of_same fun _ => rfl

theorem touches_openFile : Touches F (openFile onError path : Method S ε Unit) :=
  touches_of_same fun _ => rfl

theorem touches_readExact {len : Nat} : Touches F (readExact onError path len : Method S ε Bytes) :=
  touches_of_same fun _ => rfl

theorem touches_fileLen : Touches F (fileLen onError path : Method S ε Nat) :=
  touches_of_same fun _ => rfl

theorem touches_sync : Touches F (sync onError : Method S ε Unit) :=
  touches_of_same fun _ => rfl

theorem update_of_not_mem {other : Path} (hPath : path ∈ F) (hOther : other ∉ F) (d : Disk)
    (file : Option Bytes) : Function.update d path file other = d other :=
  Function.update_of_ne (fun hEq : other = path => hOther (hEq ▸ hPath)) ..

theorem touches_openOrCreate (hPath : path ∈ F) :
    Touches F (openOrCreate onError path : Method S ε Unit) :=
  touches_call (fun d _ hOther => update_of_not_mem hPath hOther d _) fun _ _ _ _ => rfl

theorem touches_createFile (hPath : path ∈ F) :
    Touches F (createFile onError path : Method S ε Unit) :=
  touches_call (fun d _ hOther => update_of_not_mem hPath hOther d _) fun _ _ _ _ => rfl

theorem touches_removeIfPresent (hPath : path ∈ F) :
    Touches F (removeIfPresent onError path : Method S ε Unit) :=
  touches_call (fun d _ hOther => update_of_not_mem hPath hOther d _) fun _ _ _ _ => rfl

theorem touches_appendAll (hPath : path ∈ F) (bytes : Bytes) :
    Touches F (appendAll onError path bytes : Method S ε Unit) :=
  touches_call (fun d _ hOther => update_of_not_mem hPath hOther d _)
    fun _ d _ hOther => update_of_not_mem hPath hOther d _

theorem touches_rename {source target : Path} (hSource : source ∈ F) (hTarget : target ∈ F) :
    Touches F (rename onError source target : Method S ε Unit) :=
  touches_call (fun d _ hOther => by
    show Function.update (Function.update d target (d source)) source none _ = _
    rw [update_of_not_mem hSource hOther, update_of_not_mem hTarget hOther]) fun _ _ _ _ => rfl

end FileCalls

end Method

end MultimodalDb
