import MultimodalDb.Lib.Files
import Mathlib.Data.Set.Insert

/-!
# A program on two disks

Run from the same object under the same plan on two disks, a program ends alike when it only looks
at files on which the disks agree. `twin` says so of one start, with what then holds of both disks;
`Alike` of every start from an object with `I` and disks that agree on the files of `F`, with the
agreement kept and no file outside `W` changed. A file that is created anew is one more that the
disks agree on.
-/

namespace MultimodalDb

/-- Two disks with the same files at the paths of `F`. -/
def Disk.Agree (F : Set Path) (d d' : Disk) : Prop := ∀ path ∈ F, d' path = d path

namespace Disk

variable {F G : Set Path} {d d' : Disk} {path : Path}

theorem Agree.mono (h : Agree G d d') (hSub : F ⊆ G) : Agree F d d' :=
  fun path hPath => h path (hSub hPath)

/-- The same file written at one path of both disks. -/
theorem Agree.insert (h : Agree F d d') (path : Path) {file file' : Option Bytes}
    (hFile : file' = file) :
    Agree (Insert.insert path F) (Function.update d path file) (Function.update d' path file') := by
  intro other hOther
  by_cases hEq : other = path
  · rw [hEq, Function.update_self, Function.update_self, hFile]
  · rw [Function.update_of_ne hEq, Function.update_of_ne hEq]
    exact h other (hOther.resolve_left hEq)

/-- What has become of two disks: they agree on `F`, and nothing outside `W` was changed. -/
structure Kept (F W : Set Path) (d₀ d₀' d d' : Disk) : Prop where
  agree : Agree F d d'
  off : ∀ path, path ∉ W → d path = d₀ path
  off' : ∀ path, path ∉ W → d' path = d₀' path

variable {W : Set Path} {d₀ d₀' : Disk}

theorem Kept.refl (h : Agree F d d') : Kept F W d d' d d' := ⟨h, fun _ _ => rfl, fun _ _ => rfl⟩

theorem Kept.trans {e e' : Disk} (h : Kept F W d₀ d₀' d d') (h' : Kept G W d d' e e') :
    Kept G W d₀ d₀' e e' where
  agree := h'.agree
  off path hPath := (h'.off path hPath).trans (h.off path hPath)
  off' path hPath := (h'.off' path hPath).trans (h.off' path hPath)

theorem Kept.mono (h : Kept G W d₀ d₀' d d') (hSub : F ⊆ G) : Kept F W d₀ d₀' d d' :=
  ⟨h.agree.mono hSub, h.off, h.off'⟩

theorem Kept.weaken {W' : Set Path} (h : Kept F W d₀ d₀' d d') (hSub : W ⊆ W') :
    Kept F W' d₀ d₀' d d' :=
  ⟨h.agree, fun path hPath => h.off path fun hMem => hPath (hSub hMem),
    fun path hPath => h.off' path fun hMem => hPath (hSub hMem)⟩

/-- The same file written at one path of both disks. -/
theorem Kept.insert (h : Kept F W d₀ d₀' d d') (hPath : path ∈ W) {file file' : Option Bytes}
    (hFile : file' = file) :
    Kept (Insert.insert path F) W d₀ d₀' (Function.update d path file)
      (Function.update d' path file') where
  agree := h.agree.insert path hFile
  off other hOther := by
    have hNe : other ≠ path := fun hEq => hOther (by rw [hEq]; exact hPath)
    rw [Function.update_of_ne hNe, h.off other hOther]
  off' other hOther := by
    have hNe : other ≠ path := fun hEq => hOther (by rw [hEq]; exact hPath)
    rw [Function.update_of_ne hNe, h.off' other hOther]

theorem Kept.update (h : Kept F W d₀ d₀' d d') (hRead : path ∈ F) (hPath : path ∈ W)
    {f : Option Bytes → Option Bytes} :
    Kept F W d₀ d₀' (Function.update d path (f (d path))) (Function.update d' path (f (d' path))) :=
  (h.insert hPath (congrArg f (h.agree path hRead))).mono (Set.subset_insert _ _)

end Disk

namespace Method

open Disk

variable {S T ε ε' α β : Type}

/-- Two ends that differ in the files only. -/
inductive Twins (Q : α → S → Disk → Disk → Prop) (C : Stop ε → S → Disk → Disk → Prop) :
    EStateM.Result (Stop ε) (Proc S) α → EStateM.Result (Stop ε) (Proc S) α → Prop where
  | ok {a t e e' rest} (h : Q a t e e') : Twins Q C (.ok a ⟨t, e, rest⟩) (.ok a ⟨t, e', rest⟩)
  | error {x t e e' rest} (h : C x t e e') :
      Twins Q C (.error x ⟨t, e, rest⟩) (.error x ⟨t, e', rest⟩)

/-- The program ends alike on two disks. -/
def twin (m : Method S ε α) (s : S) (d d' : Disk) (Q : α → S → Disk → Disk → Prop)
    (C : Stop ε → S → Disk → Disk → Prop) : Prop :=
  ∀ plan, Twins Q C (m ⟨s, d, plan⟩) (m ⟨s, d', plan⟩)

section Rules

variable {m : Method S ε α} {s : S} {d d' : Disk} {Q Q' : α → S → Disk → Disk → Prop}
  {C C' : Stop ε → S → Disk → Disk → Prop}

theorem twin.mono (h : twin m s d d' Q C) (hQ : ∀ a t e e', Q a t e e' → Q' a t e e')
    (hC : ∀ x t e e', C x t e e' → C' x t e e') : twin m s d d' Q' C' := by
  intro plan
  have hm := h plan
  generalize m ⟨s, d, plan⟩ = r at hm ⊢
  generalize m ⟨s, d', plan⟩ = r' at hm ⊢
  cases hm with
  | ok hEnd => exact .ok (hQ _ _ _ _ hEnd)
  | error hEnd => exact .error (hC _ _ _ _ hEnd)

/-- What a precondition says of the first run. -/
theorem twin.left {Q₁ : α → S → Disk → Prop} {A₁ C₁ : Stop ε → S → Disk → Prop}
    (h : twin m s d d' Q C)
    (hw : wp m s d Q₁ A₁ C₁) : twin m s d d' (fun a t e e' => Q a t e e' ∧ Q₁ a t e)
      fun x t e e' => C x t e e' ∧ (A₁ x t e ∨ C₁ x t e) := by
  intro plan
  have hm := h plan
  have hwp := hw plan
  generalize m ⟨s, d, plan⟩ = r at hm hwp ⊢
  generalize m ⟨s, d', plan⟩ = r' at hm ⊢
  cases hm with
  | ok hEnd => exact .ok ⟨hEnd, hwp.1⟩
  | error hEnd => exact .error ⟨hEnd, hwp.imp And.left And.right⟩

theorem twin_pure {a : α} (h : Q a s d d') : twin (pure a : Method S ε α) s d d' Q C :=
  fun _ => .ok h

theorem twin_bind {f : α → Method S ε β} {R : β → S → Disk → Disk → Prop}
    (h : twin m s d d' (fun a t e e' => twin (f a) t e e' R C) C) : twin (m >>= f) s d d' R C := by
  intro plan
  show Twins R C (EStateM.bind m f ⟨s, d, plan⟩) (EStateM.bind m f ⟨s, d', plan⟩)
  unfold EStateM.bind
  have hm := h plan
  generalize m ⟨s, d, plan⟩ = r at hm
  generalize m ⟨s, d', plan⟩ = r' at hm
  cases hm with
  | ok hEnd => exact hEnd _
  | error hEnd => exact .error hEnd

theorem twin_self {Q : S → S → Disk → Disk → Prop} (h : Q s s d d') :
    twin (self : Method S ε S) s d d' Q C := fun _ => .ok h

theorem twin_modifySelf {f : S → S} {Q : Unit → S → Disk → Disk → Prop} (h : Q () (f s) d d') :
    twin (modifySelf f : Method S ε Unit) s d d' Q C := fun _ => .ok h

theorem twin_fail {e : ε} (h : C (.error e) s d d') : twin (fail e : Method S ε α) s d d' Q C :=
  fun _ => .error h

theorem twin_panic (h : C .panic s d d') : twin (panic : Method S ε α) s d d' Q C :=
  fun _ => .error h

theorem twin_ofExcept {x : Except ε α} (hOk : ∀ a, x = .ok a → Q a s d d')
    (hError : ∀ e, x = .error e → C (.error e) s d d') : twin (ofExcept x) s d d' Q C := by
  cases x with
  | ok a => exact twin_pure (hOk a rfl)
  | error e => exact twin_fail (hError e rfl)

theorem twin_checked {x : Except Panic α} (hOk : ∀ a, x = .ok a → Q a s d d')
    (hPanic : C .panic s d d') :
    twin (checked x : Method S ε α) s d d' Q C := by
  cases x with
  | ok a => exact twin_pure (hOk a rfl)
  | error e => exact twin_panic hPanic

/-- A call that answers the same on both disks. -/
theorem twin_call {onError : IoError → ε} {act : Disk → Except IoError α × Disk}
    {torn : Nat → Disk → Disk}
    (hSame : (act d').1 = (act d).1) (hOk : ∀ a, (act d).1 = .ok a → Q a s (act d).2 (act d').2)
    (hError : ∀ e, (act d).1 = .error e → C (.error (onError e)) s (act d).2 (act d').2)
    (hTorn : ∀ n e, C e s (torn n d) (torn n d')) :
    twin (call onError act torn : Method S ε α) s d d' Q C := by
  have hDone (rest : List Outcome) :
      Twins Q C (returned onError s rest (act d)) (returned onError s rest (act d')) := by
    rcases hAct : act d with ⟨x, disk⟩
    rcases hAct' : act d' with ⟨x', disk'⟩
    rw [hAct, hAct'] at hSame hOk hError
    obtain rfl : x' = x := hSame
    cases x' with
    | ok a => exact .ok (hOk a rfl)
    | error e => exact .error (hError e rfl)
  rintro (_ | ⟨_ | n | n, rest⟩)
  · exact hDone []
  · exact hDone rest
  · exact .error (hTorn n _)
  · exact .error (hTorn n _)

theorem twin_storeBytes {act : Disk → Disk} {torn : Nat → Disk → Disk}
    {Q : Unit → S → Disk → Disk → Prop}
    (hOk : Q () s (act d) (act d')) (hTorn : ∀ n, C .crash s (torn n d) (torn n d')) :
    twin (storeBytes act torn : Method S ε Unit) s d d' Q C := by
  rintro (_ | ⟨_ | n | n, rest⟩)
  · exact .ok hOk
  · exact .ok hOk
  · exact .ok hOk
  · exact .error (hTorn n)

theorem twin_onPart {get : S → T} {set : T → S → S} {m : Method T ε α}
    (h : twin m (get s) d d' (fun a t e e' => Q a (set t s) e e')
      (fun x t e e' => C x (set t s) e e')) :
    twin (onPart get set m) s d d' Q C := by
  intro plan
  have hm := h plan
  unfold onPart
  dsimp only
  generalize m ⟨get s, d, plan⟩ = r at hm
  generalize m ⟨get s, d', plan⟩ = r' at hm
  cases hm with
  | ok hEnd => exact .ok hEnd
  | error hEnd => exact .error hEnd

theorem twin_runOn {t : T} {m : Method T ε α} {Q : α × T → S → Disk → Disk → Prop}
    (h : twin m t d d' (fun a t' e e' => Q (a, t') s e e') (fun x _ e e' => C x s e e')) :
    twin (runOn t m) s d d' Q C := by
  intro plan
  have hm := h plan
  unfold runOn
  dsimp only
  generalize m ⟨t, d, plan⟩ = r at hm
  generalize m ⟨t, d', plan⟩ = r' at hm
  cases hm with
  | ok hEnd => exact .ok hEnd
  | error hEnd => exact .error hEnd

theorem twin_mapError {f : ε → ε'} {P : S → Disk → Disk → Prop} (h : twin m s d d' Q fun _ => P) :
    twin (mapError f m) s d d' Q fun _ => P := by
  intro plan
  have hm := h plan
  unfold mapError
  generalize m ⟨s, d, plan⟩ = r at hm
  generalize m ⟨s, d', plan⟩ = r' at hm
  cases hm with
  | ok hEnd => exact .ok hEnd
  | @error x t e e' rest hEnd => cases x <;> exact .error hEnd

theorem twin_attempt {Q : Option α → S → Disk → Disk → Prop} {P : S → Disk → Disk → Prop}
    (h : twin m s d d' (fun a => Q (some a)) fun _ => P)
    (hNone : ∀ t e e', P t e e' → Q none t e e') :
    twin (attempt m : Method S ε' (Option α)) s d d' Q fun _ => P := by
  intro plan
  have hm := h plan
  unfold attempt
  generalize m ⟨s, d, plan⟩ = r at hm
  generalize m ⟨s, d', plan⟩ = r' at hm
  cases hm with
  | ok hEnd => exact .ok hEnd
  | @error x t e e' rest hEnd =>
    cases x with
    | error x => exact .ok (hNone t e e' hEnd)
    | panic => exact .error hEnd
    | crash => exact .error hEnd

theorem twin_forM {f : α → Method S ε Unit} {I : List α → S → Disk → Disk → Prop}
    (hStep : ∀ a rest t e e', I (a :: rest) t e e' → twin (f a) t e e' (fun _ => I rest) C)
    (list : List α) (h : I list s d d') : twin (list.forM f) s d d' (fun _ => I []) C := by
  induction list generalizing s d d' with
  | nil => exact twin_pure h
  | cons a list ih =>
    exact twin_bind ((hStep a list s d d' h).mono (fun _ _ _ _ => ih) fun _ _ _ _ => id)

end Rules

/-! ## Programs that keep to files -/

/-- Started from an object with `I` on disks that agree on `F`, the program ends alike, with `I` and
the agreement kept and nothing outside `W` changed; a value it returns has `P`. -/
def Alike (F W : Set Path) (I : S → Prop) (P : α → Prop) (m : Method S ε α) : Prop :=
  ∀ s d d', I s → Agree F d d' →
    twin m s d d' (fun a t e e' => P a ∧ I t ∧ Kept F W d d' e e') fun _ t e e' =>
      I t ∧ Kept F W d d' e e'

section Alike

variable {F W : Set Path} {I : S → Prop} {P : α → Prop} {R : β → Prop} {m : Method S ε α}

/-- Such a program behind others. -/
theorem Alike.twin {s : S} {d₀ d₀' d d' : Disk} {Q : α → S → Disk → Disk → Prop}
    {C : Stop ε → S → Disk → Disk → Prop}
    (h : Alike F W I P m) (hI : I s) (hKept : Kept F W d₀ d₀' d d')
    (hOk : ∀ a t e e', P a → I t → Kept F W d₀ d₀' e e' → Q a t e e')
    (hStop : ∀ x t e e', I t → Kept F W d₀ d₀' e e' → C x t e e') : Method.twin m s d d' Q C :=
  (h s d d' hI hKept.agree).mono (fun a t e e' ⟨hA, hT, hE⟩ => hOk a t e e' hA hT (hKept.trans hE))
    fun x t e e' ⟨hT, hE⟩ => hStop x t e e' hT (hKept.trans hE)

theorem alike_pure {a : α} (h : P a) : Alike F W I P (pure a : Method S ε α) :=
  fun _ _ _ hI hAgree => twin_pure ⟨h, hI, .refl hAgree⟩

theorem Alike.bind {f : α → Method S ε β} (h : Alike F W I P m)
    (hf : ∀ a, P a → Alike F W I R (f a)) :
    Alike F W I R (m >>= f) :=
  fun s d d' hI hAgree => twin_bind ((h s d d' hI hAgree).mono (fun a _ _ _ ⟨hA, hT, hE⟩ =>
    (hf a hA).twin hT hE (fun _ _ _ _ hB hU hE' => ⟨hB, hU, hE'⟩) fun _ _ _ _ hU hE' =>
      ⟨hU, hE'⟩) fun _ _ _ _ => id)

theorem alike_self : Alike F W I I (self : Method S ε S) :=
  fun _ _ _ hI hAgree => twin_self ⟨hI, hI, .refl hAgree⟩

theorem alike_modifySelf {f : S → S} (h : ∀ s, I s → I (f s)) :
    Alike F W I (fun _ => True) (modifySelf f : Method S ε Unit) :=
  fun s _ _ hI hAgree => twin_modifySelf ⟨trivial, h s hI, .refl hAgree⟩

theorem alike_fail (e : ε) : Alike F W I P (fail e : Method S ε α) :=
  fun _ _ _ hI hAgree => twin_fail ⟨hI, .refl hAgree⟩

theorem alike_panic : Alike F W I P (panic : Method S ε α) :=
  fun _ _ _ hI hAgree => twin_panic ⟨hI, .refl hAgree⟩

theorem alike_ofExcept {x : Except ε α} (h : ∀ a, x = .ok a → P a) :
    Alike F W I P (ofExcept x : Method S ε α) :=
  fun _ _ _ hI hAgree => twin_ofExcept (fun a hX => ⟨h a hX, hI, .refl hAgree⟩) fun _ _ =>
    ⟨hI, .refl hAgree⟩

theorem alike_checked (x : Except Panic α) :
    Alike F W I (fun _ => True) (checked x : Method S ε α) :=
  fun _ _ _ hI hAgree => twin_checked (fun _ _ => ⟨trivial, hI, .refl hAgree⟩) ⟨hI, .refl hAgree⟩

theorem Alike.mapError {f : ε → ε'} (h : Alike F W I P m) : Alike F W I P (mapError f m) :=
  fun s d d' hI hAgree => twin_mapError (h s d d' hI hAgree)

theorem Alike.attempt (h : Alike F W I P m) :
    Alike F W I (fun _ => True) (attempt m : Method S ε' (Option α)) :=
  fun s d d' hI hAgree => twin_attempt
    ((h s d d' hI hAgree).mono (fun _ _ _ _ ⟨_, hRest⟩ => ⟨trivial, hRest⟩)
    fun _ _ _ _ => id) fun _ _ _ hRest => ⟨trivial, hRest⟩

theorem Alike.onPart {J : T → Prop} {get : S → T} {set : T → S → S} {m : Method T ε α}
    (h : Alike F W J P m)
    (hGet : ∀ s, I s → J (get s)) (hSet : ∀ s t, I s → J t → I (set t s)) :
    Alike F W I P (onPart get set m) :=
  fun s d d' hI hAgree => twin_onPart ((h (get s) d d' (hGet s hI) hAgree).mono
    (fun _ _ _ _ ⟨hA, hT, hE⟩ => ⟨hA, hSet _ _ hI hT, hE⟩) fun _ _ _ _ ⟨hT, hE⟩ =>
      ⟨hSet _ _ hI hT, hE⟩)

theorem Alike.runOn {J : T → Prop} {t : T} {m : Method T ε α} (h : Alike F W J P m) (hT : J t) :
    Alike F W I (fun r => P r.1 ∧ J r.2) (runOn t m : Method S ε (α × T)) :=
  fun _ d d' hI hAgree => twin_runOn ((h t d d' hT hAgree).mono
    (fun _ _ _ _ ⟨hA, hT', hE⟩ => ⟨⟨hA, hT'⟩, hI, hE⟩) fun _ _ _ _ ⟨_, hE⟩ => ⟨hI, hE⟩)

theorem Alike.forM {f : α → Method S ε Unit} (list : List α)
    (h : ∀ a ∈ list, Alike F W I (fun _ => True) (f a)) :
    Alike F W I (fun _ => True) (list.forM f) := by
  induction list with
  | nil => exact alike_pure trivial
  | cons a list ih =>
    exact (h a List.mem_cons_self).bind fun _ _ => ih fun b hb => h b (List.mem_cons_of_mem a hb)

theorem Alike.mapM {f : α → Method S ε β} (list : List α) (h : ∀ a ∈ list, Alike F W I R (f a)) :
    Alike F W I (fun bs => ∀ b ∈ bs, R b) (list.mapM f) := by
  induction list with
  | nil => exact alike_pure nofun
  | cons a list ih =>
    rw [List.mapM_cons]
    exact (h a List.mem_cons_self).bind fun b hB => Alike.bind (ih fun b hb =>
      h b (List.mem_cons_of_mem a hb)) fun bs hBs => alike_pure (List.forall_mem_cons.mpr ⟨hB, hBs⟩)

theorem Alike.foldlM {f : β → α → Method S ε β} (list : List α) (b : β)
    (h : ∀ b, ∀ a ∈ list, Alike F W I (fun _ => True) (f b a)) :
    Alike F W I (fun _ => True) (list.foldlM f b) := by
  induction list generalizing b with
  | nil => exact alike_pure trivial
  | cons a list ih =>
    rw [List.foldlM_cons]
    exact (h b a List.mem_cons_self).bind fun b' _ => ih b' fun b' c hc =>
      h b' c (List.mem_cons_of_mem a hc)

end Alike

/-! ## File calls -/

section FileCalls

variable {F W : Set Path} {I : S → Prop} {onError : IoError → ε} {path : Path}

/-- A call that answers from a file of `F`, and changes none. -/
theorem alike_of_read {P : α → Prop} {act : Disk → Except IoError α × Disk}
    (hAct : ∀ d d', Agree F d d' → (act d').1 = (act d).1) (hSame : ∀ d, (act d).2 = d)
    (hP : ∀ d a, (act d).1 = .ok a → P a) :
    Alike F W I P (call onError act (fun _ d => d) : Method S ε α) := by
  intro s d d' hI hAgree
  refine twin_call (hAct d d' hAgree) (fun a hA => ⟨hP d a hA, hI, ?_⟩) (fun _ _ => ⟨hI, ?_⟩)
    fun _ _ => ⟨hI, .refl hAgree⟩
  · rw [hSame, hSame]
    exact .refl hAgree
  · rw [hSame, hSame]
    exact .refl hAgree

theorem alike_readFile (h : path ∈ F) :
    Alike F W I (fun _ => True) (readFile onError path : Method S ε Bytes) :=
  alike_of_read (fun _ _ hAgree => by dsimp only; rw [hAgree path h]) (fun _ => rfl) fun _ _ _ =>
    trivial

theorem alike_readIfPresent (h : path ∈ F) :
    Alike F W I (fun _ => True) (readIfPresent onError path : Method S ε (Option Bytes)) :=
  alike_of_read (fun _ _ hAgree => by dsimp only; rw [hAgree path h]) (fun _ => rfl) fun _ _ _ =>
    trivial

theorem alike_fileExists (h : path ∈ F) :
    Alike F W I (fun _ => True) (fileExists path : Method S ε Bool) := by
  intro s d d' hI hAgree plan
  unfold fileExists
  dsimp only
  rw [hAgree path h]
  exact .ok ⟨trivial, hI, .refl hAgree⟩

theorem alike_openFile (h : path ∈ F) :
    Alike F W I (fun _ => True) (openFile onError path : Method S ε Unit) :=
  alike_of_read (fun _ _ hAgree => by dsimp only; rw [hAgree path h]) (fun _ => rfl) fun _ _ _ =>
    trivial

theorem alike_readExact (h : path ∈ F) (len : Nat) :
    Alike F W I (fun _ => True) (readExact onError path len : Method S ε Bytes) :=
  alike_of_read (fun _ _ hAgree => by dsimp only; rw [hAgree path h]) (fun _ => rfl) fun _ _ _ =>
    trivial

theorem alike_fileLen (h : path ∈ F) :
    Alike F W I (fun _ => True) (fileLen onError path : Method S ε Nat) :=
  alike_of_read (fun _ _ hAgree => by dsimp only; rw [hAgree path h]) (fun _ => rfl) fun _ _ _ =>
    trivial

theorem alike_sync : Alike F W I (fun _ => True) (sync onError : Method S ε Unit) :=
  alike_of_read (fun _ _ _ => rfl) (fun _ => rfl) fun _ _ _ => trivial

theorem alike_createDirAll :
    Alike F W I (fun _ => True) (createDirAll onError path : Method S ε Unit) :=
  alike_of_read (fun _ _ _ => rfl) (fun _ => rfl) fun _ _ _ => trivial

/-- A mapping of the file at `path`, or of anonymous memory. -/
def MapsAt (path : Path) (m : Mapping) : Prop := ∀ other, m.file = some other → other = path

theorem alike_mapFile (h : path ∈ F) :
    Alike F W I (MapsAt path) (mapFile onError path : Method S ε Mapping) := by
  refine alike_of_read (fun _ _ hAgree => by dsimp only; rw [hAgree path h]) (fun _ => rfl)
    fun d a hA => ?_
  cases hA
  intro other hFile
  cases hFile
  rfl

theorem alike_mapAnon (len : Nat) :
    Alike F W I (MapsAt path) (mapAnon onError len : Method S ε Mapping) := by
  refine alike_of_read (fun _ _ _ => rfl) (fun _ => rfl) fun d a hA => ?_
  cases hA
  exact nofun

/-- A call that rewrites a file of `F` from what it is. -/
theorem alike_of_write (h : path ∈ F) (hW : path ∈ W) {f : Option Bytes → Option Bytes}
    {g : Nat → Option Bytes → Option Bytes} :
    Alike F W I (fun _ => True)
      (call onError (fun d => (.ok (), Function.update d path (f (d path))))
      (fun n d => Function.update d path (g n (d path))) : Method S ε Unit) := by
  intro s d d' hI hAgree
  have hStart : Kept F W d d' d d' := .refl hAgree
  exact twin_call rfl (fun _ _ => ⟨trivial, hI, hStart.update h hW⟩) nofun
    fun _ _ => ⟨hI, hStart.update h hW⟩

/-- The same of a call that leaves nothing when it fails. -/
theorem alike_of_set (h : path ∈ F) (hW : path ∈ W) {f : Option Bytes → Option Bytes} :
    Alike F W I (fun _ => True)
      (call onError (fun d => (.ok (), Function.update d path (f (d path))))
      (fun _ d => d) : Method S ε Unit) := by
  intro s d d' hI hAgree
  have hStart : Kept F W d d' d d' := .refl hAgree
  exact twin_call rfl (fun _ _ => ⟨trivial, hI, hStart.update h hW⟩) nofun
    fun _ _ => ⟨hI, hStart⟩

theorem alike_openOrCreate (h : path ∈ F) (hW : path ∈ W) :
    Alike F W I (fun _ => True) (openOrCreate onError path : Method S ε Unit) :=
  alike_of_set h hW (f := fun file => some (file.getD []))

theorem alike_createFile (h : path ∈ F) (hW : path ∈ W) :
    Alike F W I (fun _ => True) (createFile onError path : Method S ε Unit) :=
  alike_of_set h hW (f := fun _ => some [])

theorem alike_setLen (h : path ∈ F) (hW : path ∈ W) (len : Nat) :
    Alike F W I (fun _ => True) (setLen onError path len : Method S ε Unit) :=
  alike_of_set h hW (f := Option.map fun old => old.take len ++ List.replicate (len - old.length) 0)

theorem alike_appendAll (h : path ∈ F) (hW : path ∈ W) (bytes : Bytes) :
    Alike F W I (fun _ => True) (appendAll onError path bytes : Method S ε Unit) :=
  alike_of_write h hW (f := Option.map (· ++ bytes)) (g := fun n => Option.map (· ++ bytes.take n))

theorem alike_writeFile (h : path ∈ F) (hW : path ∈ W) (bytes : Bytes) :
    Alike F W I (fun _ => True) (writeFile onError path bytes : Method S ε Unit) :=
  (alike_createFile h hW).bind fun _ _ => alike_appendAll h hW bytes

theorem alike_removeIfPresent (h : path ∈ F) (hW : path ∈ W) :
    Alike F W I (fun _ => True) (removeIfPresent onError path : Method S ε Unit) :=
  alike_of_set h hW (f := fun _ => none)

theorem alike_store {m : Mapping} (h : path ∈ F) (hW : path ∈ W) (hMaps : MapsAt path m)
    (start : Nat)
    (bytes : Bytes) : Alike F W I (MapsAt path) (store m start bytes : Method S ε Mapping) := by
  unfold store
  split
  · split
    · exact alike_pure hMaps
    · next other hFile =>
      obtain rfl := hMaps other hFile
      refine Alike.bind (P := fun _ => True) (fun _ d d' hI hAgree => ?_) fun _ _ =>
        alike_pure hMaps
      have hStart : Kept F W d d' d d' := .refl hAgree
      exact twin_storeBytes
        ⟨trivial, hI, hStart.update h hW (f := Option.map fun old => Bytes.splice old start bytes)⟩
        fun n => ⟨hI, hStart.update h hW (f := Option.map fun old =>
          Bytes.splice old start (bytes.take n))⟩
  · exact alike_panic

variable {s : S} {d₀ d₀' d d' : Disk} {Q : Unit → S → Disk → Disk → Prop}
  {C : Stop ε → S → Disk → Disk → Prop}

theorem twin_createFile (h : Kept F W d₀ d₀' d d') (hW : path ∈ W)
    (hOk : ∀ e e', Kept (insert path F) W d₀ d₀' e e' → Q () s e e')
    (hStop : ∀ x e e', Kept F W d₀ d₀' e e' → C x s e e') :
    twin (createFile onError path : Method S ε Unit) s d d' Q C :=
  twin_call rfl (fun _ _ => hOk _ _ (h.insert hW rfl)) nofun fun _ x => hStop x _ _ h

theorem twin_removeIfPresent (h : Kept F W d₀ d₀' d d') (hW : path ∈ W)
    (hOk : ∀ e e', Kept (insert path F) W d₀ d₀' e e' → Q () s e e')
    (hStop : ∀ x e e', Kept F W d₀ d₀' e e' → C x s e e') :
    twin (removeIfPresent onError path : Method S ε Unit) s d d' Q C :=
  twin_call rfl (fun _ _ => hOk _ _ (h.insert hW rfl)) nofun fun _ x => hStop x _ _ h

theorem twin_rename {source target : Path} (h : Kept F W d₀ d₀' d d') (hSource : source ∈ F)
    (hW : source ∈ W)
    (hTarget : target ∈ W) (hOk : ∀ e e', Kept (insert target F) W d₀ d₀' e e' → Q () s e e')
    (hStop : ∀ x e e', Kept F W d₀ d₀' e e' → C x s e e') :
    twin (rename onError source target : Method S ε Unit) s d d' Q C := by
  refine twin_call rfl (fun _ _ => hOk _ _ ?_) nofun fun _ x => hStop x _ _ h
  exact ((h.insert hTarget (h.agree source hSource)).insert hW rfl).mono (Set.subset_insert _ _)

theorem alike_rename {source target : Path} (hSource : source ∈ F) (hW : source ∈ W)
    (hTarget : target ∈ W) :
    Alike F W I (fun _ => True) (rename onError source target : Method S ε Unit) :=
  fun _ _ _ hI hAgree => twin_rename (.refl hAgree) hSource hW hTarget
    (fun _ _ hMore => ⟨trivial, hI, hMore.mono (Set.subset_insert _ _)⟩) fun _ _ _ hSame =>
      ⟨hI, hSame⟩

end FileCalls

end Method

end MultimodalDb
