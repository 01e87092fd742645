import Mathlib.Data.List.Basic

/-!
# Maps with room for some keys

A map kept as its entries, in the order in which their keys came, with room for `cap` keys. A write
to a key that is there replaces its value, and a new key beyond the cap is not taken. After a log of
writes the map has the first `cap` distinct keys of the log, each with the value last written to it
(`Holds`).
-/

namespace MultimodalDb.Capped

variable {K V : Type*} [DecidableEq K]

def put (cap : Nat) (entries : List (K × V)) (key : K) (value : V) : List (K × V) :=
  if key ∈ entries.map (·.1) then
    entries.map fun entry => if entry.1 = key then (key, value) else entry
  else if entries.length < cap then
    entries ++ [(key, value)]
  else
    entries

/-- The entries after the writes of a log, in order. -/
def collect (cap : Nat) (entries log : List (K × V)) : List (K × V) :=
  log.foldl (fun entries write => put cap entries write.1 write.2) entries

/-- The distinct keys of a log, in the order in which they came. -/
def keys (log : List (K × V)) : List K := (log.map (·.1)).eraseDups

/-- The value last written to a key. -/
def lastOf (log : List (K × V)) (key : K) : Option V :=
  (log.reverse.find? fun write => write.1 = key).map (·.2)

/-- The entries that a log leaves. -/
structure Holds (cap : Nat) (log entries : List (K × V)) : Prop where
  keys : entries.map (·.1) = (keys log).take cap
  values : ∀ entry ∈ entries, lastOf log entry.1 = some entry.2

variable {cap : Nat} {log entries : List (K × V)}

theorem lastOf_snoc (log : List (K × V)) (write : K × V) (key : K) :
    lastOf (log ++ [write]) key = if write.1 = key then some write.2 else lastOf log key := by
  unfold lastOf
  rw [List.reverse_append, List.reverse_singleton, List.singleton_append, List.find?_cons]
  by_cases h : write.1 = key
  · simp [h]
  · simp [h]

theorem keys_snoc (log : List (K × V)) (write : K × V) :
    keys (log ++ [write]) = if write.1 ∈ keys log then keys log else keys log ++ [write.1] := by
  unfold keys
  rw [List.map_append, List.map_singleton, List.eraseDups_append]
  by_cases h : write.1 ∈ log.map (·.1)
  · rw [if_pos (List.mem_eraseDups.mpr h)]
    simp [List.removeAll, h]
  · rw [if_neg (List.mem_eraseDups.not.mpr h)]
    simp [List.removeAll, h, List.eraseDups_cons]

theorem holds_nil (cap : Nat) : Holds cap ([] : List (K × V)) [] where
  keys := by simp [Capped.keys]
  values := nofun

/-- **One write.** -/
theorem Holds.put (h : Holds cap log entries) (key : K) (value : V) :
    Holds cap (log ++ [(key, value)]) (put cap entries key value) := by
  unfold Capped.put
  split
  · next hKnown =>
    have hKey : key ∈ Capped.keys log := by
      rw [h.keys] at hKnown
      exact List.mem_of_mem_take hKnown
    constructor
    · rw [keys_snoc, if_pos hKey, ← h.keys, List.map_map]
      apply List.map_congr_left
      intro entry _
      by_cases hEntry : entry.1 = key
      · simp [hEntry]
      · simp [hEntry]
    · intro entry hMem
      obtain ⟨old, hOld, rfl⟩ := List.mem_map.mp hMem
      rw [lastOf_snoc]
      by_cases hEntry : old.1 = key
      · simp [hEntry]
      · rw [if_neg hEntry, if_neg (Ne.symm hEntry)]
        exact h.values old hOld
  · next hNew =>
    have hValues : ∀ entry ∈ entries, lastOf (log ++ [(key, value)]) entry.1 = some entry.2 := by
      intro entry hMem
      rw [lastOf_snoc, if_neg]
      · exact h.values entry hMem
      · rintro rfl
        exact hNew (List.mem_map_of_mem hMem)
    have hLength := congrArg List.length h.keys
    rw [List.length_map, List.length_take] at hLength
    split
    · next hRoom =>
      -- With room left, the keys of the log are all there.
      have hAll : entries.map (·.1) = Capped.keys log := by
        rw [h.keys, List.take_of_length_le (by omega)]
      have hKey : key ∉ Capped.keys log := by
        rw [← hAll]
        exact hNew
      constructor
      · rw [keys_snoc, if_neg hKey, List.map_append, List.map_singleton, hAll,
          List.take_of_length_le]
        rw [List.length_append, List.length_singleton, ← hAll, List.length_map]
        omega
      · intro entry hMem
        rcases List.mem_append.mp hMem with hMem | hMem
        · exact hValues entry hMem
        · rw [List.mem_singleton.mp hMem, lastOf_snoc, if_pos rfl]
    · next hFull =>
      refine ⟨?_, hValues⟩
      rw [h.keys, keys_snoc]
      split
      · rfl
      · rw [List.take_append_of_le_length]
        omega

/-- **A log of writes.** -/
theorem Holds.collect (h : Holds cap log entries) (more : List (K × V)) :
    Holds cap (log ++ more) (collect cap entries more) := by
  induction more generalizing log entries with
  | nil =>
    rw [List.append_nil]
    exact h
  | cons write more ih =>
    rw [List.append_cons]
    exact ih (h.put write.1 write.2)

end MultimodalDb.Capped
