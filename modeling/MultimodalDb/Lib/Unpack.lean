import MultimodalDb.Lib.Bytes

/-!
# Unpacking bytes

A reader is what is left of some data, with the offset at which that starts. A program that unpacks
takes bytes off its front for a value, or fails.

`Gives m bs a` says that `m` takes `bs` for the value `a`, whatever comes behind them. `Yields Fails
m P` says that a value which `m` returns is related by `P` to the bytes taken for it, and that it
fails in no other way than `Fails` allows. Both are kept by the ways of putting such programs
together.
-/

namespace MultimodalDb

structure Reader where
  /-- Where in the data the rest starts. -/
  pos : Nat
  rest : Bytes

/-- A program that reads. -/
abbrev Unpack (ε α : Type) := StateT Reader (Except ε) α

namespace Unpack

variable {ε α β : Type} {m : Unpack ε α} {f : α → Unpack ε β} {a : α} {b : β} {bs cs : Bytes}

/-- The next `n` bytes; `short` is the error where fewer are left. -/
def take (short : Nat → Nat → Nat → ε) (n : Nat) : Unpack ε Bytes := fun r =>
  if r.rest.length < n then .error (short n r.pos r.rest.length)
  else .ok (r.rest.take n, ⟨r.pos + n, r.rest.drop n⟩)

/-- As many values as a count says. -/
def replicate (item : Unpack ε α) : Nat → Unpack ε (List α)
  | 0 => return []
  | n + 1 => do
    let a ← item
    let as ← replicate item n
    return a :: as

/-! ## The bytes of a value -/

def Gives (m : Unpack ε α) (bs : Bytes) (a : α) : Prop :=
  ∀ pos rest, m ⟨pos, bs ++ rest⟩ = .ok (a, ⟨pos + bs.length, rest⟩)

theorem gives_pure (a : α) : Gives (pure a : Unpack ε α) [] a := fun _ _ => rfl

theorem Gives.bind (hm : Gives m bs a) (hf : Gives (f a) cs b) : Gives (m >>= f) (bs ++ cs) b := by
  intro pos rest
  have hRest := hm pos (cs ++ rest)
  rw [← List.append_assoc] at hRest
  show (m _ >>= fun x => f x.1 x.2) = _
  rw [hRest, List.length_append, ← Nat.add_assoc]
  exact hf (pos + bs.length) rest

/-- A last step that reads nothing. -/
theorem Gives.map {g : α → β} (hm : Gives m bs a) : Gives (m >>= fun x => pure (g x)) bs (g a) := by
  have hPure := hm.bind (f := fun x => pure (g x)) (gives_pure (g a))
  rwa [List.append_nil] at hPure

theorem gives_take (short : Nat → Nat → Nat → ε) {n : Nat} (h : bs.length = n) :
    Gives (take short n) bs bs := by
  subst h
  intro pos rest
  rw [take, if_neg (by simp), List.take_left, List.drop_left]

/-- Values are read one after the other. -/
theorem gives_replicate {item : Unpack ε α} {pairs : List (Bytes × α)}
    (h : ∀ p ∈ pairs, Gives item p.1 p.2) :
    Gives (replicate item pairs.length) (pairs.map (·.1)).flatten (pairs.map (·.2)) := by
  induction pairs with
  | nil => exact gives_pure []
  | cons p pairs ih =>
    obtain ⟨hHead, hTail⟩ := List.forall_mem_cons.mp h
    exact hHead.bind (ih hTail).map

/-! ## The value of the bytes -/

def Yields (Fails : ε → Prop) (m : Unpack ε α) (P : α → Bytes → Prop) : Prop :=
  ∀ r, (∀ a r', m r = .ok (a, r') → ∃ bs, r.rest = bs ++ r'.rest ∧ P a bs) ∧
    ∀ e, m r = .error e → Fails e

variable {Fails : ε → Prop} {P : α → Bytes → Prop} {Q : β → Bytes → Prop}

theorem Yields.mono {P' : α → Bytes → Prop} (hm : Yields Fails m P) (h : ∀ a bs, P a bs → P' a bs) :
    Yields Fails m P' := by
  intro r
  refine ⟨fun a r' hRun => ?_, (hm r).2⟩
  obtain ⟨bs, hRest, hP⟩ := (hm r).1 a r' hRun
  exact ⟨bs, hRest, h a bs hP⟩

theorem yields_pure (h : P a []) : Yields Fails (pure a) P := by
  refine fun r => ⟨fun b r' hRun => ?_, fun e hRun => ?_⟩
  · cases hRun
    exact ⟨[], rfl, h⟩
  · cases hRun

theorem yields_throw {e : ε} (h : Fails e) : Yields Fails (throw e : Unpack ε α) P := by
  refine fun r => ⟨fun b r' hRun => ?_, fun e' hRun => ?_⟩
  · cases hRun
  · cases hRun
    exact h

/-- A second reading goes on behind the bytes of the first. -/
theorem Yields.bind (hm : Yields Fails m P)
    (hf : ∀ a bs, P a bs → Yields Fails (f a) fun b cs => Q b (bs ++ cs)) :
    Yields Fails (m >>= f) Q := by
  intro r
  cases hFirst : m r with
  | error e =>
    have hBind : (m >>= f) r = .error e := by
      show (m r >>= fun x => f x.1 x.2) = _
      rw [hFirst]
      rfl
    rw [hBind]
    refine ⟨fun b r' hRun => (by cases hRun), fun e' hRun => ?_⟩
    cases hRun
    exact (hm r).2 e hFirst
  | ok x =>
    obtain ⟨a, r₁⟩ := x
    obtain ⟨bs, hRest, hP⟩ := (hm r).1 a r₁ hFirst
    have hBind : (m >>= f) r = f a r₁ := by
      show (m r >>= fun x => f x.1 x.2) = _
      rw [hFirst]
      rfl
    rw [hBind]
    refine ⟨fun b r' hRun => ?_, (hf a bs hP r₁).2⟩
    obtain ⟨cs, hMore, hQ⟩ := (hf a bs hP r₁).1 b r' hRun
    exact ⟨bs ++ cs, by rw [hRest, hMore, List.append_assoc], hQ⟩

/-- A last step that reads nothing. -/
theorem Yields.map {g : α → β} (hm : Yields Fails m fun a bs => Q (g a) bs) :
    Yields Fails (m >>= fun x => pure (g x)) Q :=
  hm.bind fun a bs hQ => yields_pure (by rwa [List.append_nil])

theorem yields_take {short : Nat → Nat → Nat → ε}
    (hShort : ∀ n pos left, Fails (short n pos left)) (n : Nat) :
    Yields Fails (take short n) fun bs taken => bs = taken ∧ bs.length = n := by
  intro r
  unfold take
  split
  · refine ⟨fun a r' hRun => (by cases hRun), fun e hRun => ?_⟩
    cases hRun
    exact hShort _ _ _
  · next hLong =>
    refine ⟨fun a r' hRun => ?_, fun e hRun => (by cases hRun)⟩
    cases hRun
    exact ⟨_, (List.take_append_drop n r.rest).symm, rfl, List.length_take_of_le (not_lt.mp hLong)⟩

theorem yields_replicate {item : Unpack ε α} (h : Yields Fails item P) (n : Nat) :
    Yields Fails (replicate item n) fun as bs => ∃ pairs : List (Bytes × α), pairs.length = n ∧
      pairs.map (·.2) = as ∧ (pairs.map (·.1)).flatten = bs ∧ ∀ p ∈ pairs, P p.2 p.1 := by
  induction n with
  | zero => exact yields_pure ⟨[], rfl, rfl, rfl, List.forall_mem_nil _⟩
  | succ n ih =>
    refine h.bind fun a bs hP => Yields.map (ih.mono fun as cs hRest => ?_)
    obtain ⟨pairs, hLength, hValues, hBytes, hPairs⟩ := hRest
    refine ⟨(bs, a) :: pairs, ?_, ?_, ?_, List.forall_mem_cons.mpr ⟨hP, hPairs⟩⟩
    · rw [List.length_cons, hLength]
    · rw [List.map_cons, hValues]
    · rw [List.map_cons, List.flatten_cons, hBytes]

end Unpack

end MultimodalDb
