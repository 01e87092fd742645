import MultimodalDb.Lib.Files

/-!
# Programs that nothing disturbs

Under the empty plan every call does what it says, so that a run is an equation: what the program
returns and the disk it leaves. Runs are put together with `bind_ok`.
-/

namespace MultimodalDb

namespace Method

variable {S ε ε' α β : Type} {p q : Proc S} {s : S} {d : Disk} {onError : IoError → ε} {path : Path}

/-! ## Putting runs together -/

theorem bind_ok {m : Method S ε α} {f : α → Method S ε β} {a : α} (h : m p = .ok a q) :
    (m >>= f) p = f a q := by
  change EStateM.bind m f p = _
  rw [EStateM.bind, h]

theorem bind_error {m : Method S ε α} {f : α → Method S ε β} {e : Stop ε} (h : m p = .error e q) :
    (m >>= f) p = .error e q := by
  change EStateM.bind m f p = _
  rw [EStateM.bind, h]

theorem bind_congr {m m' : Method S ε α} {f : α → Method S ε β} (h : m p = m' p) :
    (m >>= f) p = (m' >>= f) p := by
  change EStateM.bind m f p = EStateM.bind m' f p
  rw [EStateM.bind, EStateM.bind, h]

theorem attempt_ok {m : Method S ε α} {a : α} (h : m p = .ok a q) :
    (attempt m : Method S ε' (Option α)) p = .ok (some a) q := by
  rw [attempt, h]

theorem attempt_error {m : Method S ε α} {e : ε} (h : m p = .error (.error e) q) :
    (attempt m : Method S ε' (Option α)) p = .ok none q := by
  rw [attempt, h]

theorem self_ok : (self : Method S ε S) p = .ok p.self p := rfl

theorem ofExcept_ok {x : Except ε α} {a : α} (h : x = .ok a) :
    (ofExcept x : Method S ε α) p = .ok a p := by
  rw [h]
  rfl

theorem checked_ok {x : Except Panic α} {a : α} (h : x = .ok a) :
    (checked x : Method S ε α) p = .ok a p := by
  rw [h]
  rfl

/-! ## File calls -/

theorem createDirAll_nil :
    (createDirAll onError path : Method S ε Unit) ⟨s, d, []⟩ = .ok () ⟨s, d, []⟩ := rfl

theorem createFile_nil : (createFile onError path : Method S ε Unit) ⟨s, d, []⟩ =
    .ok () ⟨s, Function.update d path (some []), []⟩ := rfl

theorem appendAll_nil {bytes : Bytes} :
    (appendAll onError path bytes : Method S ε Unit) ⟨s, d, []⟩ =
    .ok () ⟨s, d.extend path bytes, []⟩ := rfl

theorem sync_nil : (sync onError : Method S ε Unit) ⟨s, d, []⟩ = .ok () ⟨s, d, []⟩ := rfl

theorem readFile_nil {bytes : Bytes} (h : d path = some bytes) :
    (readFile onError path : Method S ε Bytes) ⟨s, d, []⟩ = .ok bytes ⟨s, d, []⟩ := by
  simp [readFile, call, h]

theorem readFile_missing (h : d path = none) :
    (readFile onError path : Method S ε Bytes) ⟨s, d, []⟩ =
      .error (.error (onError .notFound)) ⟨s, d, []⟩ := by
  simp [readFile, call, h]

theorem openFile_nil {bytes : Bytes} (h : d path = some bytes) :
    (openFile onError path : Method S ε Unit) ⟨s, d, []⟩ = .ok () ⟨s, d, []⟩ := by
  simp [openFile, call, h]

theorem openFile_missing (h : d path = none) :
    (openFile onError path : Method S ε Unit) ⟨s, d, []⟩ =
      .error (.error (onError .notFound)) ⟨s, d, []⟩ := by
  simp [openFile, call, h]

theorem readExact_nil {bytes : Bytes} {len : Nat} (h : d path = some bytes)
    (hLen : len ≤ bytes.length) :
    (readExact onError path len : Method S ε Bytes) ⟨s, d, []⟩ =
      .ok (bytes.take len) ⟨s, d, []⟩ := by
  simp [readExact, call, h, hLen]

theorem mapFile_nil {bytes : Bytes} (h : d path = some bytes) :
    (mapFile onError path : Method S ε Mapping) ⟨s, d, []⟩ = .ok ⟨bytes, some path⟩ ⟨s, d, []⟩ := by
  simp [mapFile, call, h]

theorem store_nil {bytes old : Bytes} {start : Nat} (h : start + bytes.length ≤ old.length) :
    (store ⟨old, some path⟩ start bytes : Method S ε Mapping) ⟨s, d, []⟩ =
      .ok ⟨Bytes.splice old start bytes, some path⟩ ⟨s, d.overwrite path start bytes, []⟩ := by
  rw [store, if_pos h]
  rfl

/-- A store to mapped memory does the same on any object, or it panics on each. -/
theorem store_nil_cases (m : Mapping) (start : Nat) (bytes : Bytes) (d : Disk) :
    (∃ m' d', ∀ s : S, (store m start bytes : Method S ε Mapping) ⟨s, d, []⟩ = .ok m' ⟨s, d', []⟩) ∨
      ∀ s : S, (store m start bytes : Method S ε Mapping) ⟨s, d, []⟩ =
        .error .panic ⟨s, d, []⟩ := by
  obtain ⟨old, file⟩ := m
  by_cases hBound : start + bytes.length ≤ old.length
  · refine Or.inl ⟨⟨Bytes.splice old start bytes, file⟩,
      file.elim d fun path => d.overwrite path start bytes, fun s => ?_⟩
    rw [store, if_pos hBound]
    cases file <;> rfl
  · refine Or.inr fun s => ?_
    rw [store, if_neg hBound]
    rfl

end Method

end MultimodalDb
