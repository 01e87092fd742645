import MultimodalDb.Server.Connection
import Mathlib.Data.List.MinMax

/-!
# The failure table

A peer's failed logins are counted in a window that starts with the first of them. A table has room
for `MAX_TRACKED_PEERS` windows. For one more it drops the expired ones, or else the oldest: it
drops an unexpired window only where none is expired (`noteFailure_spares`).
-/

namespace MultimodalDb

def MAX_TRACKED_PEERS : Nat := 4096

/-- A budget of failures, and how long a window is. -/
structure RateLimit where
  failures : Nat
  window : Nat

structure Window where
  started : Nat
  failures : Nat
  deriving DecidableEq

/-- The windows of the peers, in the order in which the map is iterated. -/
abbrev Peers (Peer : Type) : Type := List (Peer × Window)

namespace FailureTable

variable {Peer : Type} [DecidableEq Peer] (limit : RateLimit) (now : Nat)

def expired (w : Window) : Bool := limit.window ≤ now - w.started

def windowOf (peers : Peers Peer) (peer : Peer) : Option Window :=
  (peers.find? (·.1 = peer)).map (·.2)

def isThrottled (peers : Peers Peer) (peer : Peer) : Bool :=
  match windowOf peers peer with
  | some w => !expired limit now w && decide (limit.failures ≤ w.failures)
  | none => false

/-- One more failure in the window, or the first of a new one. -/
def bump (w : Window) : Window :=
  if expired limit now w then ⟨now, 1⟩ else { w with failures := w.failures + 1 }

/-- Room for one more peer. -/
def makeRoom (peers : Peers Peer) : Peers Peer :=
  if MAX_TRACKED_PEERS ≤ peers.length then
    let live := peers.filter fun e => !expired limit now e.2
    if MAX_TRACKED_PEERS ≤ live.length then
      match live.argmin fun e => e.2.started with
      | some oldest => live.filter (·.1 ≠ oldest.1)
      | none => live
    else
      live
  else
    peers

/-- The table after one more failure, and whether the peer is over its budget now. -/
def noteFailure (peers : Peers Peer) (peer : Peer) : Peers Peer × Bool :=
  let peers :=
    if (windowOf peers peer).isSome then
      peers.map fun e => if e.1 = peer then (e.1, bump limit now e.2) else e
    else
      makeRoom limit now peers ++ [(peer, ⟨now, 1⟩)]
  (peers, (windowOf peers peer).any fun w => limit.failures ≤ w.failures)

/-! ## Lookups -/

variable {limit now} {peers : Peers Peer} {peer other : Peer} {w : Window}

theorem windowOf_eq_some (h : (peers.map (·.1)).Nodup) :
    windowOf peers peer = some w ↔ (peer, w) ∈ peers := by
  rw [windowOf, Option.map_eq_some_iff]
  constructor
  · rintro ⟨⟨k, _⟩, hFind, rfl⟩
    have hKey : k = peer := by simpa using List.find?_some hFind
    exact hKey ▸ List.mem_of_find?_eq_some hFind
  · intro hMem
    obtain ⟨e, hFind⟩ := Option.isSome_iff_exists.mp
      (List.find?_isSome.mpr ⟨(peer, w), hMem, decide_eq_true rfl⟩ :
        (peers.find? (·.1 = peer)).isSome)
    have hKey : e.1 = peer := by simpa using List.find?_some hFind
    have hSame : e = (peer, w) :=
      List.inj_on_of_nodup_map h (List.mem_of_find?_eq_some hFind) hMem hKey
    exact ⟨e, hFind, by rw [hSame]⟩

theorem bump_of_expired (h : expired limit now w = true) : bump limit now w = ⟨now, 1⟩ := if_pos h

theorem bump_of_live (h : expired limit now w = false) :
    bump limit now w = { w with failures := w.failures + 1 } := if_neg (by rw [h]; exact nofun)

theorem windowOf_isSome : (windowOf peers peer).isSome ↔ peer ∈ peers.map (·.1) := by
  simp [windowOf]

theorem windowOf_perm {order : Peers Peer} (h : (peers.map (·.1)).Nodup) (hPerm : order.Perm peers)
    (peer : Peer) : windowOf order peer = windowOf peers peer := by
  refine Option.ext fun w => ?_
  rw [windowOf_eq_some h, windowOf_eq_some ((hPerm.map _).nodup_iff.mpr h), hPerm.mem_iff]

/-! ## Room -/

variable (limit now) in
theorem makeRoom_sublist (peers : Peers Peer) : (makeRoom limit now peers).Sublist peers := by
  unfold makeRoom
  split
  · dsimp only
    split
    · split
      · exact List.filter_sublist.trans List.filter_sublist
      · exact List.filter_sublist
    · exact List.filter_sublist
  · exact List.Sublist.refl peers

theorem length_makeRoom (h : peers.length ≤ MAX_TRACKED_PEERS) :
    (makeRoom limit now peers).length < MAX_TRACKED_PEERS := by
  have hPositive : 0 < MAX_TRACKED_PEERS := by decide
  unfold makeRoom
  split
  · dsimp only
    split
    · next hFull =>
      split
      · next oldest hOldest =>
        -- The oldest window is one of them.
        have hMem := List.argmin_mem (Option.mem_def.mpr hOldest)
        have hLess : (List.filter (fun e => decide (e.1 ≠ oldest.1))
            (peers.filter fun e => !expired limit now e.2)).length <
            (peers.filter fun e => !expired limit now e.2).length :=
          List.length_filter_lt_length_iff_exists.mpr ⟨oldest, hMem, by simp⟩
        have hLive := List.length_filter_le (fun e : Peer × Window => !expired limit now e.2) peers
        omega
      · next hNone =>
        have hEmpty := List.argmin_eq_none.mp hNone
        rw [hEmpty, List.length_nil] at hFull
        omega
    · omega
  · omega

/-- A window that is dropped for room is expired, or all windows are unexpired. -/
theorem makeRoom_spares (h : peers.length ≤ MAX_TRACKED_PEERS) {e : Peer × Window}
    (hMem : e ∈ peers)
    (hLive : expired limit now e.2 = false) (hGone : e ∉ makeRoom limit now peers) :
    ∀ other ∈ peers, expired limit now other.2 = false := by
  unfold makeRoom at hGone
  have hStays : e ∈ peers.filter fun e => !expired limit now e.2 :=
    List.mem_filter.mpr ⟨hMem, by rw [hLive]; rfl⟩
  split at hGone
  · dsimp only at hGone
    split at hGone
    · next hFull =>
      -- As many are unexpired as there are.
      have hAll : (peers.filter fun e => !expired limit now e.2).length = peers.length := by
        have := List.length_filter_le (fun e : Peer × Window => !expired limit now e.2) peers
        omega
      intro other hOther
      simpa using List.length_filter_eq_length_iff.mp hAll other hOther
    · exact absurd hStays hGone
  · exact absurd hMem hGone

/-! ## Failures -/

/-- One window a peer, and no more than there is room for. -/
structure Bounded (peers : Peers Peer) : Prop where
  keys : (peers.map (·.1)).Nodup
  length : peers.length ≤ MAX_TRACKED_PEERS

omit [DecidableEq Peer] in
theorem Bounded.perm {order : Peers Peer} (h : Bounded peers) (hPerm : order.Perm peers) :
    Bounded order where
  keys := (hPerm.map _).nodup_iff.mpr h.keys
  length := hPerm.length_eq ▸ h.length

theorem keys_bumped (peers : Peers Peer) :
    (peers.map fun e => if e.1 = peer then (e.1, bump limit now e.2) else e).map (·.1) =
      peers.map (·.1) := by
  rw [List.map_map]
  refine List.map_congr_left fun e _ => ?_
  simp only [Function.comp_apply]
  split <;> rfl

theorem Bounded.noteFailure (h : Bounded peers) (peer : Peer) :
    Bounded (noteFailure limit now peers peer).1 := by
  unfold FailureTable.noteFailure
  dsimp only
  split
  · refine ⟨?_, by rw [List.length_map]; exact h.length⟩
    rw [keys_bumped]
    exact h.keys
  · next hNew =>
    have hSub := makeRoom_sublist limit now peers
    refine ⟨?_, ?_⟩
    · rw [List.map_append, List.map_singleton, List.nodup_append_comm, List.singleton_append,
        List.nodup_cons]
      refine ⟨fun hMem => hNew ?_, (hSub.map _).nodup h.keys⟩
      exact windowOf_isSome.mpr ((hSub.map _).subset hMem)
    · rw [List.length_append, List.length_singleton]
      exact length_makeRoom h.length

variable (limit now) in
/-- The window of the peer itself: one failure more, or a new window. -/
theorem windowOf_noteFailure (h : Bounded peers) (peer : Peer) :
    windowOf (noteFailure limit now peers peer).1 peer =
      some (match windowOf peers peer with
        | some w => bump limit now w
        | none => ⟨now, 1⟩) := by
  rw [windowOf_eq_some (h.noteFailure peer).keys]
  unfold FailureTable.noteFailure
  dsimp only
  cases hFind : windowOf peers peer with
  | some w =>
    rw [if_pos Option.isSome_some]
    refine List.mem_map.mpr ⟨(peer, w), (windowOf_eq_some h.keys).mp hFind, ?_⟩
    rw [if_pos rfl]
  | none =>
    rw [if_neg nofun]
    exact List.mem_append_right _ (List.mem_singleton_self _)

/-- The window of another peer is what it was, or it is dropped. -/
theorem windowOf_noteFailure_other (h : Bounded peers) (hOther : other ≠ peer)
    (hFind : windowOf (noteFailure limit now peers peer).1 other = some w) :
    windowOf peers other = some w := by
  rw [windowOf_eq_some (h.noteFailure peer).keys] at hFind
  unfold FailureTable.noteFailure at hFind
  dsimp only at hFind
  rw [windowOf_eq_some h.keys]
  split at hFind
  · obtain ⟨e, hMem, hEq⟩ := List.mem_map.mp hFind
    split at hEq
    · next hKey => exact absurd ((Prod.mk.inj hEq).1.symm.trans hKey) hOther
    · exact hEq ▸ hMem
  · rcases List.mem_append.mp hFind with hMem | hMem
    · exact (makeRoom_sublist _ _ peers).subset hMem
    · exact absurd (Prod.mk.inj (List.mem_singleton.mp hMem)).1 hOther

/-- An unexpired window is dropped only where no window is expired. -/
theorem noteFailure_spares (h : Bounded peers) (hFind : windowOf peers other = some w)
    (hLive : expired limit now w = false)
    (hGone : windowOf (noteFailure limit now peers peer).1 other = none) :
    ∀ e ∈ peers, expired limit now e.2 = false := by
  have hOther : other ≠ peer := by
    rintro rfl
    rw [windowOf_noteFailure _ _ h] at hGone
    cases hGone
  have hMem := (windowOf_eq_some h.keys).mp hFind
  refine makeRoom_spares h.length hMem hLive fun hStays => ?_
  have hNone : ∀ w, (other, w) ∉ (noteFailure limit now peers peer).1 := by
    intro w hw
    rw [(windowOf_eq_some (h.noteFailure peer).keys).mpr hw] at hGone
    cases hGone
  apply hNone w
  unfold FailureTable.noteFailure
  dsimp only
  split
  · refine List.mem_map.mpr ⟨(other, w), hMem, ?_⟩
    rw [if_neg hOther]
  · exact List.mem_append_left _ hStays

end FailureTable

end MultimodalDb
