import MultimodalDb.Generic.MmapCompact
import MultimodalDb.Generic.RecordStore

/-!
# What an edge layer relies on of the store beneath

Which ids are live, and that a store whose files nobody else touches stays valid. A call that
returns changes the live ids as its name says; one the store refuses changes none; nothing is said
of a call that storage stopped. The durable store keeps these laws.
-/

namespace MultimodalDb

open StoredRecord hiding id
open StoredRecord renaming id → idOf

namespace StoreView

/-- Storage stopped the call: its error, if it has one, is a durability error. -/
def Stopped {S ε : Type} (durability? : ε → Option DurabilityError) (e : Stop ε) (_ : S)
    (_ : Disk) : Prop :=
  ∀ r, e = .error r → durability? r ≠ none

/-- What is left when a call was refused. -/
def Refused {S ε : Type} (durability? : ε → Option DurabilityError) (P : S → Disk → Prop)
    (e : Stop ε) (s : S) (d : Disk) : Prop :=
  ∀ r, e = .error r → durability? r = none → P s d

/-- A caller that does not tell refusals apart. -/
theorem wp_durability {S ε α : Type} {m : Method S ε α} {s : S} {d : Disk} {Q : α → S → Disk → Prop}
    {P : S → Disk → Prop} {durability? : ε → Option DurabilityError}
    (h : Method.wp m s d Q (Refused durability? P) (Stopped durability?)) :
    Method.wp (Method.mapError durability? m) s d Q (fun e s' d' => e = .error none → P s' d')
      (fun e _ _ => e ≠ .error none) := by
  refine Method.wp_mapError (h.mono (fun _ _ _ hQ => hQ) ?_ ?_)
  · rintro (e | _ | _) s' d' hRefused
    · exact fun hEq => hRefused e rfl (Stop.error.inj hEq)
    · exact nofun
    · exact nofun
  · rintro (e | _ | _) s' d' hStopped
    · exact fun hEq => hStopped e rfl (Stop.error.inj hEq)
    · exact nofun
    · exact nofun

/-- A part of a call that only storage can stop. -/
theorem wp_storage {S ε α : Type} {m : Method S DurabilityError α} {s : S} {d : Disk}
    {Q : α → S → Disk → Prop}
    {P : S → Disk → Prop} {durability? : ε → Option DurabilityError}
    {durability : DurabilityError → ε} (hInto : ∀ e, durability? (durability e) ≠ none)
    (h : Method.wp m s d Q (fun _ _ _ => True) (fun _ _ _ => True)) :
    Method.wp (Method.mapError durability m) s d Q (Refused durability? P)
      (Stopped durability?) := by
  refine Method.wp_mapError (h.mono (fun _ _ _ hQ => hQ) ?_ ?_)
  · rintro (e | _ | _) s' d' -
    · rintro r hEq hNone
      cases hEq
      exact absurd hNone (hInto e)
    · exact nofun
    · exact nofun
  · rintro (e | _ | _) s' d' -
    · rintro r hEq
      cases hEq
      exact hInto e
    · exact nofun
    · exact nofun

end StoreView

/-- How a store is looked at from above. -/
class StoreView (S : Type) (Id : outParam Type) where
  /-- The files the store answers for. -/
  files : S → Set Path
  Valid : S → Disk → Prop
  live : S → Set Id

namespace StoreView

/-- A valid store over the same files, with these live ids. -/
structure Becomes {S Id : Type} [StoreView S Id] (s : S) (ids : Set Id) (s' : S)
    (d' : Disk) : Prop where
  valid : Valid s' d'
  files : files s' = files s
  live : live s' = ids

end StoreView

open StoreView

class LawfulRecordStore (S : Type) {R Id IV V : Type} [StoredRecord R Id IV V]
    [RecordStore S R Id V] [StoreView S Id] : Prop where
  valid_congr : ∀ {s : S} {d d'}, Valid s d → (∀ path ∈ files s, d' path = d path) → Valid s d'
  get_live : ∀ {s : S} {d}, Valid s d → ∀ id, ∃ found, RecordStore.get s id = .ok found ∧
    (found.isSome = true ↔ id ∈ live s)
  wp_insert : ∀ {s : S} {d}, Valid s d → ∀ record, Method.wp (RecordStore.insert record) s d
    (fun _ s' d' => idOf record ∉ live s ∧ Becomes s (insert (idOf record) (live s)) s' d')
    (Refused InsertError.durability? (Becomes s (live s))) (Stopped InsertError.durability?)
  wp_replace : ∀ {s : S} {d}, Valid s d → ∀ record, Method.wp (RecordStore.replace record) s d
    (fun _ s' d' => Becomes s (live s) s' d')
    (Refused ReplaceError.durability? (Becomes s (live s))) (Stopped ReplaceError.durability?)
  wp_update : ∀ {s : S} {d}, Valid s d → ∀ id value, Method.wp (RecordStore.update id value) s d
    (fun _ s' d' => Becomes s (live s) s' d')
    (Refused (fun _ => none) (Becomes s (live s))) (Stopped fun _ => none)
  wp_delete : ∀ {s : S} {d}, Valid s d → ∀ id, Method.wp (RecordStore.delete id) s d
    (fun _ s' d' => id ∈ live s ∧ Becomes s (live s \ {id}) s' d')
    (Refused DeleteError.durability? (Becomes s (live s))) (Stopped DeleteError.durability?)

/-! ## The durable store -/

namespace GenericMmapStore

variable {R Id IV SV : Type} [StoredRecord R Id IV SV] [MmapFieldValue Id] [MmapFieldValue SV]
variable [DecidableEq Id] [DecidableEq IV] [Serde R] [Serde Id]

instance : StoreView (GenericMmapStore R Id IV SV) Id where
  files s := {s.file.path, InsertLog.logPath s.file.path}
  Valid s d := ∃ L slots, Session s.file.path L slots s d
  live s := {id | id ∈ s.records}

variable {path : Path} {L : List (LogEntry R Id)} {slots slots' : List (Slot Id SV)}
variable {s s' : GenericMmapStore R Id IV SV} {d d' : Disk}

theorem Session.path_eq (h : Session path L slots s d) : s.file.path = path := by
  rw [h.rep.file]

/-- A session at the path of `s` is what `s` becomes. -/
theorem Session.becomes (h : Session s.file.path L slots s' d') {ids : Set Id}
    (hLive : ∀ id, id ∈ s'.records ↔ id ∈ ids) : Becomes s ids s' d' where
  valid := ⟨L, slots, by rw [h.path_eq]; exact h⟩
  files := by
    show ({_, _} : Set Path) = {_, _}
    rw [h.path_eq]
  live := Set.ext hLive

omit [MmapFieldValue Id] [MmapFieldValue SV] [DecidableEq IV] [Serde R] [Serde Id] in
theorem mem_records_iff (s : GenericMmapStore R Id IV SV) (id : Id) :
    id ∈ s.records ↔ live s id ≠ none := by
  rw [live, Ne, Option.map_eq_none_iff, AList.lookup_eq_none, not_not]

/-- A call that is logged changes the live ids where its entry says. -/
theorem Wrote.mem_records {entry : LogEntry R Id}
    (h : Wrote path entry L slots s d slots' s' d') (id : Id) :
    id ∈ s'.records ↔ if id = (written entry).1 then (written entry).2 ≠ none
      else id ∈ s.records := by
  rw [mem_records_iff, mem_records_iff, h.live]
  split
  · next hId => rw [hId, Function.update_self, Ne, Option.map_eq_none_iff]
  · next hId => rw [Function.update_of_ne hId]

instance : LawfulRecordStore (GenericMmapStore R Id IV SV) where
  valid_congr := by
    rintro s d d' ⟨L, slots, h⟩ hSame
    exact ⟨L, slots, h.rep, by rw [hSame _ (Or.inl rfl)]; exact h.file,
      by rw [hSame _ (Or.inr rfl)]; exact h.log⟩
  get_live := by
    rintro s d ⟨L, slots, h⟩ id
    refine ⟨view s id, h.rep.get_eq id, ?_⟩
    rw [Option.isSome_iff_ne_none, Ne, h.rep.view_eq_none_iff, AList.lookup_eq_none, not_not]
    rfl
  wp_insert := by
    rintro s d ⟨L, slots, h⟩ record
    refine (wp_insert h record).mono (fun _ s' d' ⟨hNew, hWrote⟩ => ?_) ?_ ?_
    · refine ⟨fun hLive => AList.lookup_eq_none.mp hNew hLive, hWrote.session.becomes fun id => ?_⟩
      rw [hWrote.mem_records]
      split
      · next hId => exact iff_of_true nofun (Or.inl hId)
      · next hId => exact ⟨Or.inr, fun hMem => hMem.resolve_left hId⟩
    · rintro e s' d' ⟨rfl, rfl, -⟩ _ - -
      exact h.becomes fun id => Iff.rfl
    · rintro e s' d' hStop (k | e) hEq
      · exact absurd hEq (hStop k)
      · exact nofun
  wp_replace := by
    rintro s d ⟨L, slots, h⟩ record
    refine (wp_replace h record).mono (fun _ s' d' ⟨hOld, slots', hWrote⟩ => ?_) ?_ ?_
    · refine hWrote.session.becomes fun id => ?_
      rw [hWrote.mem_records]
      split
      · next hId =>
        rw [hId]
        exact iff_of_true nofun (AList.lookup_isSome.mp hOld)
      · rfl
    · rintro e s' d' ⟨rfl, rfl, -⟩ _ - -
      exact h.becomes fun id => Iff.rfl
    · rintro e s' d' hStop (k | e) hEq
      · exact absurd hEq (hStop k)
      · exact nofun
  wp_update := by
    rintro s d ⟨L, slots, h⟩ id value
    refine (wp_update h id value).mono (fun _ s' d' ⟨_, slots', hTouched⟩ => ?_) ?_ ?_
    · refine hTouched.session.becomes fun id => ?_
      rw [hTouched.records]
      rfl
    · rintro e s' d' ⟨rfl, rfl, -⟩ _ - -
      exact h.becomes fun id => Iff.rfl
    · rintro e _ _ rfl id hEq
      cases hEq
  wp_delete := by
    rintro s d ⟨L, slots, h⟩ id
    refine (wp_delete h id).mono (fun _ s' d' ⟨hOld, slots', hWrote⟩ => ?_) ?_ ?_
    · refine ⟨AList.lookup_isSome.mp hOld, hWrote.session.becomes fun other => ?_⟩
      rw [hWrote.mem_records]
      split
      · next hId => simp [written, hId]
      · next hId => exact ⟨fun hMem => ⟨hMem, hId⟩, fun hMem => hMem.1⟩
    · rintro e s' d' ⟨rfl, rfl, -⟩ _ - -
      exact h.becomes fun id => Iff.rfl
    · rintro e s' d' hStop (k | e) hEq
      · exact absurd hEq (hStop k)
      · exact nofun

end GenericMmapStore

end MultimodalDb
