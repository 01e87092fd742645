import MultimodalDb.Generic.InsertLogTears
import MultimodalDb.Lib.Steady

/-!
# Appends that stop short

An append makes five calls: it reads the version, opens or creates the file, asks for its length,
writes, and syncs. It may fail at any of them, and whether a reader then finds the entry is told by
the call and by the log there was. A log that is there reads as before when the append fails in
front of its write, or when the write leaves out part of the entry; a log that the append creates
must get its whole header (`append_short`). An append that fails at its sync has written its entry.
-/

namespace MultimodalDb

open Bytes GenericRecordBlob

namespace InsertLog

/-- The append fails in front of the last byte of its entry, and what it leaves can be read. -/
def StopsShort (tag : String) (kind : UInt8) (payload : Bytes) (file : Option Bytes) :
  List Outcome → Prop
  | .failed _ :: _ => True
  | .done :: .failed _ :: _ => True
  | .done :: .done :: .failed _ :: _ => file ≠ none
  | .done :: .done :: .done :: .failed n :: _ =>
    n < (appended tag file kind payload).length ∧
      if file = none then TAGGED_HEADER_LEN ≤ n else n = 0 ∨ WholeLog tag file
  | _ => False

variable {T K S : Type} [Serde T] [Serde K]
variable {log : Path} {tag : String} {entries : List (LogEntry T K)} {file : Option Bytes}

theorem holds_of_whole (h : Reads tag entries file) (hWhole : WholeLog tag file) :
    Holds tag entries file := by
  rcases h with hNone | ⟨frames, tail, rfl, hTail, hFrames⟩
  · exact Or.inl hNone
  · rcases hWhole with hNone | ⟨frames', hFile⟩
    · cases hNone
    · obtain rfl := logImage_inj hTail (Option.some.inj hFile)
      exact Or.inr ⟨frames, hFile, hFrames⟩

/-- Part of an entry behind a whole log is not read. -/
theorem Holds.reads_torn (h : Holds tag entries file) {entry : LogEntry T K} {payload : Bytes}
    (hPayload : payloadOf entry = some payload) (hLen : payload.length < 2 ^ 32) {n : Nat}
    (hHeader : file = none → TAGGED_HEADER_LEN ≤ n)
    (hShort : n < (appended tag file (kindOf entry) payload).length) :
    Reads tag entries
      (some (file.getD [] ++ (appended tag file (kindOf entry) payload).take n)) := by
  obtain ⟨frames, f, m, hFrames, -, hPart, hFile⟩ := h.torn hPayload hLen hHeader
  rw [hFile]
  exact Or.inr ⟨frames, f.bytes.take m, rfl, Frame.nextFrame_take f (hPart hShort), hFrames⟩

/-- **An append that stops short** fails and leaves the log reading as it did. -/
theorem append_short {s : S} {d : Disk} {plan : List Outcome} {entry : LogEntry T K}
    {payload : Bytes} (h : Reads tag entries (d log)) (hPayload : payloadOf entry = some payload)
    (hLen : payload.length < 2 ^ 32) (hShort : StopsShort tag (kindOf entry) payload (d log) plan) :
    ∃ e file plan', append log tag entry ⟨s, d, plan⟩ =
      .error (.error e) ⟨s, Function.update d log file, plan'⟩ ∧ Reads tag entries file := by
  have hVersion := h.declaredVersion_ne
  have hExtend : ∀ bytes, Disk.extend (Function.update d log (some ((d log).getD []))) log bytes =
      Function.update d log (some ((d log).getD [] ++ bytes)) := fun bytes => by
    rw [Disk.extend, Function.update_self, Option.map_some, Function.update_idem]
  have hRun : ∀ plan, append log tag entry (⟨s, d, plan⟩ : Proc S) = (do
      upgradeIfVersion1 log tag
      Method.openOrCreate .io log
      let len ← Method.fileLen .io log
      let header := if len = 0 then encodeTaggedImage MAGIC LOG_VERSION 0 tag [] else []
      Method.appendAll .io log (header ++ entryBytes (kindOf entry) payload)
      Method.sync .io : Method S DurabilityError Unit) ⟨s, d, plan⟩ := fun plan => by
    rw [append_of_payload hPayload]
    unfold appendEntry
    rw [if_pos hLen]
  rw [hRun]
  unfold StopsShort at hShort
  split at hShort
  · next n rest =>
    refine ⟨.io .other, d log, rest, ?_, h⟩
    rw [Function.update_eq_self]
    rfl
  · next n rest =>
    refine ⟨.io .other, d log, rest, ?_, h⟩
    simp only [upgradeIfVersion1, onDiskVersion, Method.readIfPresent, Method.openOrCreate,
      Method.call,
      bind, EStateM.bind, pure, EStateM.pure, hVersion, if_false, Function.update_eq_self,
        List.tail_cons]
  · next n rest =>
    refine ⟨.io .other, some ((d log).getD []), rest, ?_, ?_⟩
    · simp only [upgradeIfVersion1, onDiskVersion, Method.readIfPresent, Method.openOrCreate,
        Method.fileLen, Method.call, bind, EStateM.bind, pure, EStateM.pure, hVersion, if_false,
        List.tail_cons]
    · obtain ⟨bytes, hBytes⟩ := Option.ne_none_iff_exists'.mp hShort
      rw [hBytes] at h ⊢
      exact h
  · next n rest =>
    obtain ⟨hPart, hFile⟩ := hShort
    refine ⟨.io .other,
      some ((d log).getD [] ++ (appended tag (d log) (kindOf entry) payload).take n), rest, ?_, ?_⟩
    · simp only [upgradeIfVersion1, onDiskVersion, Method.readIfPresent, Method.openOrCreate,
        Method.fileLen, Method.appendAll, Method.call, bind, EStateM.bind, pure, EStateM.pure,
        hVersion, if_false, Function.update_self, Option.getD_some, List.tail_cons, hExtend]
      rfl
    · split at hFile
      · next hNone =>
        exact (holds_of_whole h (Or.inl hNone)).reads_torn hPayload hLen (fun _ => hFile) hPart
      · next hSome =>
        rcases hFile with rfl | hWhole
        · obtain ⟨bytes, hBytes⟩ := Option.ne_none_iff_exists'.mp hSome
          rw [List.take_zero, List.append_nil]
          rw [hBytes] at h ⊢
          exact h
        · exact (holds_of_whole h hWhole).reads_torn hPayload hLen
            (fun hNone => (hSome hNone).elim) hPart
  · exact hShort.elim

/-! ## Appends that no call fails -/

theorem steady_appendEntry (log : Path) (tag : String) (kind : UInt8) (payload : Bytes) :
    Method.Steady (appendEntry log tag kind payload : Method S DurabilityError Unit) := by
  unfold appendEntry
  split
  · refine Method.Steady.bind ?_ fun _ => Method.steady_call.bind fun _ =>
      Method.steady_call.bind fun _ =>
      Method.steady_call.bind fun _ => Method.steady_call
    refine Method.Steady.bind (Method.steady_call.bind fun _ => Method.steady_pure _)
      fun version => ?_
    split
    · refine Method.steady_call.bind fun bytes => ?_
      split
      · exact Method.steady_fail _
      · exact Method.steady_call.bind fun _ => Method.steady_call.bind fun _ =>
          Method.steady_call.bind fun _ =>
          Method.steady_call.bind fun _ => Method.steady_call
    · exact Method.steady_pure _
  · exact Method.steady_fail _

theorem steady_append (log : Path) (tag : String) (entry : LogEntry T K) :
    Method.Steady (append log tag entry : Method S DurabilityError Unit) := by
  cases hPayload : payloadOf entry with
  | none =>
    rw [append_of_unencodable hPayload]
    exact Method.steady_fail _
  | some payload =>
    rw [append_of_payload hPayload]
    exact steady_appendEntry log tag (kindOf entry) payload

end InsertLog

end MultimodalDb
