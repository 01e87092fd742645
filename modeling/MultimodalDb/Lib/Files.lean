import MultimodalDb.Lib.Crash

/-!
# File calls

The system calls a storage program makes, each as one `Method.call` with its effect on the disk and
what a failure in the middle of it leaves. Only calls that write bytes can leave half an effect. A
failing call reports the error it is given a conversion for; the two errors a program can meet
without any failure are a missing file and a file too short to read from.

Every call comes with its precondition rule. The rules give the disk after the call in terms of
`Function.update`, so that a file no call names keeps its content by `Function.update_of_ne`.
-/

namespace MultimodalDb

/-! ## Paths with a suffix pushed onto them -/

theorem append_suffix_ne {suffix : List Char} (h : suffix ≠ []) (path : Path) :
    path ++ suffix ≠ path := by
  simpa using h

theorem append_suffix_ne_append {suffix other : List Char} (h : suffix ≠ other) (path : Path) :
    path ++ suffix ≠ path ++ other := by
  simpa using h

namespace Disk

/-- The disk with `bytes` added at the end of the file at `path`, if there is one. -/
def extend (d : Disk) (path : Path) (bytes : Bytes) : Disk :=
  Function.update d path ((d path).map (· ++ bytes))

@[simp] theorem extend_self (d : Disk) (path : Path) (bytes : Bytes) :
    d.extend path bytes path = (d path).map (· ++ bytes) :=
  Function.update_self ..

@[simp] theorem extend_of_ne {path other : Path} (h : other ≠ path) (d : Disk) (bytes : Bytes) :
    d.extend path bytes other = d other :=
  Function.update_of_ne h ..

/-- The disk with the bytes of the file at `path` from position `start` on overwritten. -/
def overwrite (d : Disk) (path : Path) (start : Nat) (bytes : Bytes) : Disk :=
  Function.update d path ((d path).map (fun old => Bytes.splice old start bytes))

@[simp] theorem overwrite_self (d : Disk) (path : Path) (start : Nat) (bytes : Bytes) :
    d.overwrite path start bytes path = (d path).map (fun old => Bytes.splice old start bytes) :=
  Function.update_self ..

@[simp] theorem overwrite_of_ne {path other : Path} (h : other ≠ path) (d : Disk) (start : Nat)
    (bytes : Bytes) : d.overwrite path start bytes other = d other :=
  Function.update_of_ne h ..

/-- The disk with the file at `source` moved over whatever was at `target`. -/
def move (d : Disk) (source target : Path) : Disk :=
  Function.update (Function.update d target (d source)) source none

/-- Every file but those at `paths` is the same on both disks. -/
def AgreeOff (paths : List Path) (d d' : Disk) : Prop := ∀ p, p ∉ paths → d' p = d p

@[refl] theorem AgreeOff.refl (paths : List Path) (d : Disk) : AgreeOff paths d d :=
  fun _ _ => rfl

theorem AgreeOff.trans {paths : List Path} {d d' d'' : Disk} (h : AgreeOff paths d d')
    (h' : AgreeOff paths d' d'') : AgreeOff paths d d'' :=
  fun p hp => (h' p hp).trans (h p hp)

theorem AgreeOff.mono {paths more : List Path} {d d' : Disk} (h : AgreeOff paths d d')
    (hSub : paths ⊆ more) : AgreeOff more d d' :=
  fun p hp => h p (fun hMem => hp (hSub hMem))

theorem AgreeOff.update {paths : List Path} {d d' : Disk} (h : AgreeOff paths d d') {path : Path}
    (hPath : path ∈ paths) (file : Option Bytes) :
    AgreeOff paths d (Function.update d' path file) := by
  intro p hp
  have hNe : p ≠ path := fun hEq => hp (hEq ▸ hPath)
  rw [Function.update_of_ne hNe, h p hp]

end Disk

/-- A mapping of a file into memory, or of anonymous memory. -/
structure Mapping where
  bytes : Bytes
  file : Option Path

namespace Method

variable {S ε : Type} (onError : IoError → ε)

/-- Read a whole file. -/
def readFile (path : Path) : Method S ε Bytes :=
  call onError (fun d => ((d path).elim (.error .notFound) .ok, d)) (fun _ d => d)

/-- Read a whole file, where a missing one is no error. -/
def readIfPresent (path : Path) : Method S ε (Option Bytes) :=
  call onError (fun d => (.ok (d path), d)) (fun _ d => d)

/-- Whether there is a file at a path. -/
def fileExists (path : Path) : Method S ε Bool := fun p => .ok (p.disk path).isSome p

/-- Open an existing file. -/
def openFile (path : Path) : Method S ε Unit :=
  call onError (fun d => ((d path).elim (.error .notFound) (fun _ => .ok ()), d)) (fun _ d => d)

/-- The first `len` bytes of an open file. -/
def readExact (path : Path) (len : Nat) : Method S ε Bytes :=
  call onError
    (fun d =>
      let bytes := (d path).getD []
      (if len ≤ bytes.length then .ok (bytes.take len) else .error .unexpectedEof, d))
    (fun _ d => d)

/-- Open a file for appending, creating an empty one when there is none. -/
def openOrCreate (path : Path) : Method S ε Unit :=
  call onError (fun d => (.ok (), Function.update d path (some ((d path).getD [])))) (fun _ d => d)

/-- The length of an open file. -/
def fileLen (path : Path) : Method S ε Nat :=
  call onError (fun d => (.ok ((d path).getD []).length, d)) (fun _ d => d)

/-- Write at the end of a file open for appending. -/
def appendAll (path : Path) (bytes : Bytes) : Method S ε Unit :=
  call onError (fun d => (.ok (), d.extend path bytes)) (fun n d => d.extend path (bytes.take n))

/-- Create an empty file, emptying what was there. -/
def createFile (path : Path) : Method S ε Unit :=
  call onError (fun d => (.ok (), Function.update d path (some []))) (fun _ d => d)

/-- Write a whole file in place of whatever was there. -/
def writeFile (path : Path) (bytes : Bytes) : Method S ε Unit := do
  createFile onError path
  appendAll onError path bytes

/-- Cut a file, or grow it by zero bytes, to `len`. -/
def setLen (path : Path) (len : Nat) : Method S ε Unit :=
  call onError
    (fun d => (.ok (), Function.update d path ((d path).map
      (fun old => old.take len ++ List.replicate (len - old.length) 0))))
    (fun _ d => d)

/-- Flush to the physical disk. A process crash loses nothing that was written before it. -/
def sync : Method S ε Unit := call onError (fun d => (.ok (), d)) (fun _ d => d)

/-- Create the directories above a path. Files are all this model has of a disk. -/
def createDirAll (_parent : Path) : Method S ε Unit :=
  call onError (fun d => (.ok (), d)) (fun _ d => d)

/-- Move a file over another in one step. -/
def rename (source target : Path) : Method S ε Unit :=
  call onError (fun d => (.ok (), d.move source target)) (fun _ d => d)

/-- Remove a file, where a missing one is no error. -/
def removeIfPresent (path : Path) : Method S ε Unit :=
  call onError (fun d => (.ok (), Function.update d path none)) (fun _ d => d)

/-- Map an open file: its bytes as they are now. -/
def mapFile (path : Path) : Method S ε Mapping :=
  call onError (fun d => (.ok ⟨(d path).getD [], some path⟩, d)) (fun _ d => d)

/-- Map anonymous memory of `len` zero bytes. -/
def mapAnon (len : Nat) : Method S ε Mapping :=
  call onError (fun d => (.ok ⟨List.replicate len 0, none⟩, d)) (fun _ d => d)

/-- Store into a mapping in place. A store past its end panics; one into a mapped file reaches the
file. -/
def store (m : Mapping) (start : Nat) (bytes : Bytes) : Method S ε Mapping :=
  if start + bytes.length ≤ m.bytes.length then
    match m.file with
    | none => pure { m with bytes := Bytes.splice m.bytes start bytes }
    | some path => do
      storeBytes (fun d => d.overwrite path start bytes)
        (fun n d => d.overwrite path start (bytes.take n))
      return { m with bytes := Bytes.splice m.bytes start bytes }
  else
    panic

/-! ## Rules -/

variable {onError} {s : S} {d : Disk} {A C : Stop ε → S → Disk → Prop}

/-- A call without partial effects that cannot go wrong by itself. -/
theorem wp_call_ok {α : Type} {act : Disk → Except IoError α × Disk} {a : α} {d' : Disk}
    {Q : α → S → Disk → Prop} (hAct : act d = (.ok a, d')) (hOk : Q a s d')
    (hStop : ∀ e, C e s d) : wp (call onError act (fun _ d => d)) s d Q A C := by
  refine wp_call (fun b hb => ?_) (fun e he => ?_) (fun _ => ⟨hStop _, hStop _⟩)
  · rw [hAct] at hb ⊢
    cases hb
    exact hOk
  · rw [hAct] at he
    cases he

theorem wp_readFile {path : Path} {Q : Bytes → S → Disk → Prop}
    (hOk : ∀ bytes, d path = some bytes → Q bytes s d)
    (hMissing : d path = none → A (.error (onError .notFound)) s d) (hStop : ∀ e, C e s d) :
    wp (readFile onError path) s d Q A C := by
  refine wp_call (fun bytes h => ?_) (fun e h => ?_) (fun _ => ⟨hStop _, hStop _⟩)
  · cases hFile : d path with
    | none => simp [hFile] at h
    | some old => simp only [hFile, Option.elim_some, Except.ok.injEq] at h; exact hOk _ (h ▸ hFile)
  · cases hFile : d path with
    | none => simp only [hFile, Option.elim_none, Except.error.injEq] at h; exact h ▸ hMissing hFile
    | some old => simp [hFile] at h

theorem wp_readIfPresent {path : Path} {Q : Option Bytes → S → Disk → Prop}
    (hOk : Q (d path) s d) (hStop : ∀ e, C e s d) :
    wp (readIfPresent onError path) s d Q A C :=
  wp_call_ok rfl hOk hStop

theorem wp_fileExists {path : Path} {Q : Bool → S → Disk → Prop} (hOk : Q (d path).isSome s d) :
    wp (fileExists path : Method S ε Bool) s d Q A C :=
  fun _ => ⟨hOk, id⟩

theorem wp_openFile {path : Path} {Q : Unit → S → Disk → Prop}
    (hOk : ∀ bytes, d path = some bytes → Q () s d)
    (hMissing : d path = none → A (.error (onError .notFound)) s d) (hStop : ∀ e, C e s d) :
    wp (openFile onError path) s d Q A C := by
  refine wp_call (fun _ h => ?_) (fun e h => ?_) (fun _ => ⟨hStop _, hStop _⟩)
  · cases hFile : d path with
    | none => simp [hFile] at h
    | some old => exact hOk _ hFile
  · cases hFile : d path with
    | none => simp only [hFile, Option.elim_none, Except.error.injEq] at h; exact h ▸ hMissing hFile
    | some old => simp [hFile] at h

theorem wp_readExact {path : Path} {len : Nat} {Q : Bytes → S → Disk → Prop}
    (hOk : len ≤ ((d path).getD []).length → Q (((d path).getD []).take len) s d)
    (hShort : ((d path).getD []).length < len → A (.error (onError .unexpectedEof)) s d)
    (hStop : ∀ e, C e s d) : wp (readExact onError path len) s d Q A C := by
  refine wp_call (fun bytes h => ?_) (fun e h => ?_) (fun _ => ⟨hStop _, hStop _⟩)
  · dsimp only at h
    split at h
    · next hLen => cases h; exact hOk hLen
    · cases h
  · dsimp only at h
    split at h
    · cases h
    · next hLen => cases h; exact hShort (by omega)

theorem wp_openOrCreate {path : Path} {Q : Unit → S → Disk → Prop}
    (hOk : Q () s (Function.update d path (some ((d path).getD [])))) (hStop : ∀ e, C e s d) :
    wp (openOrCreate onError path) s d Q A C :=
  wp_call_ok rfl hOk hStop

theorem wp_fileLen {path : Path} {Q : Nat → S → Disk → Prop}
    (hOk : Q ((d path).getD []).length s d) (hStop : ∀ e, C e s d) :
    wp (fileLen onError path) s d Q A C :=
  wp_call_ok rfl hOk hStop

theorem wp_appendAll {path : Path} {bytes : Bytes} {Q : Unit → S → Disk → Prop}
    (hOk : Q () s (d.extend path bytes)) (hStop : ∀ n e, C e s (d.extend path (bytes.take n))) :
    wp (appendAll onError path bytes) s d Q A C :=
  wp_call (fun _ _ => hOk) (fun _ h => nomatch h) (fun n => ⟨hStop n _, hStop n _⟩)

theorem wp_createFile {path : Path} {Q : Unit → S → Disk → Prop}
    (hOk : Q () s (Function.update d path (some []))) (hStop : ∀ e, C e s d) :
    wp (createFile onError path) s d Q A C :=
  wp_call_ok rfl hOk hStop

/-- A file that is written holds its bytes, or, stopped in the middle, the first of them. -/
theorem wp_writeFile {path : Path} {bytes : Bytes} {Q : Unit → S → Disk → Prop}
    (hOk : Q () s (Function.update d path (some bytes))) (hSame : ∀ e, C e s d)
    (hStop : ∀ n e, C e s (Function.update d path (some (bytes.take n)))) :
    wp (writeFile onError path bytes) s d Q A C := by
  have hExtend : ∀ more, Disk.extend (Function.update d path (some [])) path more =
      Function.update d path (some more) := by
    intro more
    rw [Disk.extend, Function.update_self, Function.update_idem, Option.map_some, List.nil_append]
  refine wp_bind (wp_createFile (wp_appendAll ?_ fun n e => ?_) hSame)
  · rw [hExtend]
    exact hOk
  · rw [hExtend]
    exact hStop n e

theorem wp_setLen {path : Path} {len : Nat} {Q : Unit → S → Disk → Prop}
    (hOk : Q () s (Function.update d path ((d path).map
      (fun old => old.take len ++ List.replicate (len - old.length) 0))))
    (hStop : ∀ e, C e s d) : wp (setLen onError path len) s d Q A C :=
  wp_call_ok rfl hOk hStop

theorem wp_sync {Q : Unit → S → Disk → Prop} (hOk : Q () s d) (hStop : ∀ e, C e s d) :
    wp (sync onError) s d Q A C :=
  wp_call_ok rfl hOk hStop

theorem wp_createDirAll {path : Path} {Q : Unit → S → Disk → Prop} (hOk : Q () s d)
    (hStop : ∀ e, C e s d) : wp (createDirAll onError path) s d Q A C :=
  wp_call_ok rfl hOk hStop

theorem wp_rename {source target : Path} {Q : Unit → S → Disk → Prop}
    (hOk : Q () s (d.move source target)) (hStop : ∀ e, C e s d) :
    wp (rename onError source target) s d Q A C :=
  wp_call_ok rfl hOk hStop

theorem wp_removeIfPresent {path : Path} {Q : Unit → S → Disk → Prop}
    (hOk : Q () s (Function.update d path none)) (hStop : ∀ e, C e s d) :
    wp (removeIfPresent onError path) s d Q A C :=
  wp_call_ok rfl hOk hStop

theorem wp_mapFile {path : Path} {Q : Mapping → S → Disk → Prop}
    (hOk : Q ⟨(d path).getD [], some path⟩ s d) (hStop : ∀ e, C e s d) :
    wp (mapFile onError path) s d Q A C :=
  wp_call_ok rfl hOk hStop

theorem wp_mapAnon {len : Nat} {Q : Mapping → S → Disk → Prop}
    (hOk : Q ⟨List.replicate len 0, none⟩ s d) (hStop : ∀ e, C e s d) :
    wp (mapAnon onError len) s d Q A C :=
  wp_call_ok rfl hOk hStop

theorem wp_store {m : Mapping} {path : Path} {start : Nat} {bytes : Bytes}
    {Q : Mapping → S → Disk → Prop} (hFile : m.file = some path)
    (hIn : start + bytes.length ≤ m.bytes.length)
    (hOk : Q ⟨Bytes.splice m.bytes start bytes, some path⟩ s (d.overwrite path start bytes))
    (hStop : ∀ n, C .crash s (d.overwrite path start (bytes.take n))) :
    wp (store m start bytes) s d Q A C := by
  unfold store
  rw [if_pos hIn, hFile]
  exact wp_bind (wp_storeBytes (wp_pure hOk) hStop)

end Method

end MultimodalDb
