import AsciiTerra.SmallSteps

/-!
# Notices about players that left

`OnClientDisconnect` puts the ID of the player into `GarbageIDs`, and the next `OnMessage`
broadcasts every ID there and clears the vector. The ID of a player that such a broadcast
itself removes has no place: the loop iterates over the vector that grows.
-/

set_option autoImplicit false

namespace AsciiTerra

namespace Notice

/-- The ID that went into `GarbageIDs`. -/
def garbage : Notice → Option UInt32
  | .erased id => some id
  | .repeated id => some id
  | .broadcast _ | .called _ => none

def erasedID : Notice → Option UInt32
  | .erased id => some id
  | _ => none

def broadcastID : Notice → Option UInt32
  | .broadcast id => some id
  | _ => none

end Notice

namespace Server
variable {s t u : Server}

open Outcome (Post)

/-- The players that were erased, and the IDs that were broadcast, in order. -/
def erasures (s : Server) : List UInt32 := s.notices.filterMap Notice.erasedID

def broadcasts (s : Server) : List UInt32 := s.notices.filterMap Notice.broadcastID

/-- The IDs that went into `GarbageIDs` so far. -/
def removals (s : Server) : List UInt32 := s.notices.filterMap Notice.garbage

/-- Whatever went into `GarbageIDs` is broadcast or still there. -/
def Pending (s : Server) : Prop := s.removals = s.broadcasts ++ s.garbageIDs

/-- IDs were added to `GarbageIDs`, and nothing was broadcast. -/
def Collects (s t : Server) : Prop :=
  ∃ ids, t.garbageIDs = s.garbageIDs ++ ids ∧ t.removals = s.removals ++ ids ∧
    t.broadcasts = s.broadcasts

theorem Collects.of_eq (hgarbage : t.garbageIDs = s.garbageIDs) (hnotices : t.notices = s.notices) :
    Collects s t :=
  ⟨[], by simp [hgarbage], by simp [removals, hnotices], by simp [broadcasts, hnotices]⟩

theorem Collects.trans (h : Collects s t) (h' : Collects t u) : Collects s u := by
  obtain ⟨ids, hgarbage, hremovals, hbroadcasts⟩ := h
  obtain ⟨ids', hgarbage', hremovals', hbroadcasts'⟩ := h'
  refine ⟨ids ++ ids', ?_, ?_, hbroadcasts'.trans hbroadcasts⟩
  · rw [hgarbage', hgarbage, List.append_assoc]
  · rw [hremovals', hremovals, List.append_assoc]

theorem Collects.pending (h : Collects s t) (hs : s.Pending) : t.Pending := by
  obtain ⟨ids, hgarbage, hremovals, hbroadcasts⟩ := h
  unfold Pending at hs ⊢
  rw [hremovals, hs, hbroadcasts, hgarbage, List.append_assoc]

theorem Small.collects {sender : Option UInt32} (h : Small sender s t) : Collects s t := by
  cases h with
  | resetTurn hreset =>
    obtain ⟨p, -, rfl⟩ := Server.resetTurn_eq_ok.mp hreset
    exact .of_eq rfl rfl
  | @removePlayer c _ =>
    refine ⟨[c], rfl, ?_, ?_⟩
    · simp only [removals, Server.removePlayer, List.filterMap_append]
      split <;> rfl
    · simp only [broadcasts, Server.removePlayer, List.filterMap_append]
      split <;> simp [Notice.broadcastID]
  | tick | send _ _ _ | eraseNulls | resetAt | choosing | enemies _ | removeDead | giveTo _ =>
    exact .of_eq rfl rfl

theorem Smalls.collects {sender : Option UInt32} (h : Smalls sender s t) : Collects s t :=
  h.preserves (fun _ _ h hstep => h.trans hstep.collects) (.of_eq rfl rfl)

theorem Changes.collects {c : UInt32} (h : Changes c s t) : Collects s t := by
  refine h.preserves (fun _ _ h hstep => h.trans ?_) (.of_eq rfl rfl)
  cases hstep with
  | small hsmall => exact hsmall.collects
  | reply | enter _ _ | apply _ _ => exact .of_eq rfl rfl

theorem flushGarbage_notices {hook : Option UInt32 → Server → Outcome Fault Server}
    (hh : SmallHook none hook) : Post (fun t => t.garbageIDs = [] ∧ t.removals = s.removals ∧
      t.broadcasts = s.broadcasts ++ s.garbageIDs) (s.flushGarbage hook) := by
  have hloop : ∀ (l : List UInt32) (s : Server), Post (fun t => t.removals = s.removals ∧
      t.broadcasts = s.broadcasts ++ l) (l.foldlM (fun (s : Server) pid => do
        let s' ← messageAllClients hook
          ((Message.ofID .gameRemovePlayer).push Codec.u32 pid) none (s.note (.broadcast pid))
        if s'.garbageIDs.length = s.garbageIDs.length then Outcome.ok s' else .fault .grownVector)
          s) := by
    intro l
    induction l with
    | nil => exact fun s => Post.of_ok ⟨rfl, by simp⟩
    | cons pid l ih =>
      intro s t hok
      rw [List.foldlM_cons] at hok
      obtain ⟨s', hs', hok⟩ := Outcome.bind_eq_ok.mp hok
      obtain ⟨u, hu, hlength⟩ := Outcome.bind_eq_ok.mp hs'
      split at hlength
      · rename_i hsame
        cases hlength
        obtain ⟨ids, hgarbage, hremovals, hbroadcasts⟩ :=
          (messageAllClients_smalls hh s' hu).collects
        obtain rfl : ids = [] := by
          rw [hgarbage, List.length_append] at hsame
          exact List.eq_nil_of_length_eq_zero (Nat.add_eq_left.mp hsame)
        obtain ⟨hremovals', hbroadcasts'⟩ := ih s' t hok
        refine ⟨?_, ?_⟩
        · rw [hremovals', hremovals]
          simp [removals, Server.note, Notice.garbage]
        · rw [hbroadcasts', hbroadcasts]
          simp [broadcasts, Server.note, Notice.broadcastID]
      · exact nomatch hlength
  refine Post.bind (hloop s.garbageIDs s) fun t ht => Post.of_ok ?_
  exact ⟨rfl, ht.1, ht.2⟩

/-- The hook of clients that are no players. -/
def unregisteredOnly : Option UInt32 → Server → Outcome Fault Server
  | none, _ => .fault .nullConnection
  | some c, s => if c ∈ s.gameWorld.playersList then .fault .assertion else .ok s

/-- The broadcasts of the flush find no registered player closed. -/
def FlushUndisturbed (s : Server) : Prop := ∃ t, s.flushGarbage unregisteredOnly = .ok t

theorem onClientDisconnect_grows {n : Nat} {c : UInt32} (hc : c ∈ s.gameWorld.playersList)
    (h : onClientDisconnect n (some c) s = .ok t) :
    s.garbageIDs.length < t.garbageIDs.length := by
  cases n with
  | zero => exact nomatch h
  | succ n =>
    unfold onClientDisconnect at h
    rw [if_pos hc] at h
    obtain ⟨u, hu, h⟩ := Outcome.bind_eq_ok.mp h
    cases h
    have hsmalls : Smalls none s u := by
      split at hu
      · exact chooseNextPlayerForTurn_smalls (onClientDisconnect_smalls n) _ u hu
      · cases hu
        exact .refl s
    obtain ⟨ids, hgarbage, -⟩ := hsmalls.collects
    simp only [Server.removePlayer, hgarbage, List.length_append, List.length_singleton]
    omega

theorem messageEntry_undisturbed {n : Nat} {msg : Message} {ignore : Option UInt32}
    {st st' : Server × Bool} {i : Nat} :
    messageEntry unregisteredOnly msg ignore st i = .ok st' ↔
      messageEntry (onClientDisconnect (n + 1)) msg ignore st i = .ok st' ∧
        st'.1.garbageIDs.length = st.1.garbageIDs.length := by
  obtain ⟨s, b⟩ := st
  cases hi : s.deqConnection[i]? with
  | none => simp [messageEntry, hi]
  | some client =>
    cases client with
    | none => simp [messageEntry, hi, connected, unregisteredOnly, onClientDisconnect]
    | some c =>
      by_cases hup : c ∈ s.tick.closed
      · rw [messageEntry_closed hi hup, messageEntry_closed hi hup]
        by_cases hmem : c ∈ s.tick.gameWorld.playersList
        · refine iff_of_false ?_ ?_
          · simp [unregisteredOnly, hmem]
          · rintro ⟨hok, hsame⟩
            obtain ⟨t, ht, hok⟩ := Outcome.bind_eq_ok.mp hok
            have hgrows := onClientDisconnect_grows hmem ht
            split at hok
            · cases hok
              exact Nat.ne_of_gt hgrows hsame
            · cases hok
        · rw [onClientDisconnect_of_not_mem hmem]
          simp only [unregisteredOnly, if_neg hmem, Outcome.ok_bind]
          refine ⟨fun hok => ⟨hok, ?_⟩, And.left⟩
          split at hok
          · cases hok
            rfl
          · cases hok
      · rw [messageEntry_open hi hup, messageEntry_open hi hup]
        refine ⟨fun hok => ⟨hok, ?_⟩, And.left⟩
        cases hok
        split <;> rfl

theorem messageEntry_garbage {n : Nat} {msg : Message} {ignore : Option UInt32}
    {st st' : Server × Bool} {i : Nat}
    (h : messageEntry (onClientDisconnect n) msg ignore st i = .ok st') :
    st.1.garbageIDs.length ≤ st'.1.garbageIDs.length := by
  have hh : SmallHook none (onClientDisconnect n) := onClientDisconnect_smalls n
  obtain ⟨ids, hgarbage, -⟩ := (messageEntry_smalls hh st' h).collects
  rw [hgarbage, List.length_append]
  exact Nat.le_add_right _ _

theorem messageAllClients_undisturbed {n : Nat} {msg : Message} {ignore : Option UInt32} :
    messageAllClients unregisteredOnly msg ignore s = .ok t ↔
      messageAllClients (onClientDisconnect (n + 1)) msg ignore s = .ok t ∧
        t.garbageIDs.length = s.garbageIDs.length := by
  have hgarbage : ∀ st : Server × Bool,
      (if st.2 then st.1.eraseNulls else st.1).garbageIDs = st.1.garbageIDs := by
    intro st
    split <;> rfl
  constructor
  · intro h
    obtain ⟨st, hst, h⟩ := Outcome.bind_eq_ok.mp h
    cases h
    have hsame : st.1.garbageIDs.length = s.garbageIDs.length :=
      Post.foldlM (I := fun u : Server × Bool => u.1.garbageIDs.length = s.garbageIDs.length) rfl
        (fun st i _ hst st' hok => ((messageEntry_undisturbed (n := n)).mp hok).2.trans hst) st hst
    have htransfer := Outcome.foldlM_transfer (fun _ : Server × Bool => 0)
      (fun _ _ _ _ => Nat.le_refl _)
      (fun _ _ _ hok _ => (messageEntry_undisturbed (n := n)).mp hok |>.1) hst rfl
    refine ⟨?_, by rw [hgarbage, hsame]⟩
    unfold messageAllClients
    rw [htransfer]
    rfl
  · rintro ⟨h, hsame⟩
    obtain ⟨st, hst, h⟩ := Outcome.bind_eq_ok.mp h
    cases h
    rw [hgarbage] at hsame
    have htransfer := Outcome.foldlM_transfer (fun st : Server × Bool => st.1.garbageIDs.length)
      (fun _ _ _ => messageEntry_garbage) (fun _ _ _ hok hlen =>
        messageEntry_undisturbed.mpr ⟨hok, hlen⟩) hst hsame
    unfold messageAllClients
    rw [htransfer]
    rfl

theorem flushGarbage_undisturbed {n : Nat} :
    (∃ t, s.flushGarbage (onClientDisconnect (n + 1)) = .ok t) ↔ s.FlushUndisturbed := by
  constructor
  · rintro ⟨t, h⟩
    obtain ⟨u, hu, _⟩ := Outcome.bind_eq_ok.mp h
    refine ⟨{ u with garbageIDs := [] }, Outcome.bind_eq_ok.mpr ⟨u, ?_, rfl⟩⟩
    apply Outcome.foldlM_transfer (fun _ => 0) (fun _ _ _ _ => Nat.le_refl _) ?_ hu rfl
    intro s pid s' hok _
    obtain ⟨v, hv, hok⟩ := Outcome.bind_eq_ok.mp hok
    split at hok
    · rename_i hsame
      exact Outcome.bind_eq_ok.mpr
        ⟨v, messageAllClients_undisturbed.mpr ⟨hv, hsame⟩, by rw [if_pos hsame, hok]⟩
    · exact nomatch hok
  · rintro ⟨t, h⟩
    obtain ⟨u, hu, _⟩ := Outcome.bind_eq_ok.mp h
    refine ⟨{ u with garbageIDs := [] }, Outcome.bind_eq_ok.mpr ⟨u, ?_, rfl⟩⟩
    apply Outcome.foldlM_transfer (fun _ => 0) (fun _ _ _ _ => Nat.le_refl _) ?_ hu rfl
    intro s pid s' hok _
    obtain ⟨v, hv, hok⟩ := Outcome.bind_eq_ok.mp hok
    exact Outcome.bind_eq_ok.mpr ⟨v, (messageAllClients_undisturbed.mp hv).1, hok⟩

theorem step_pending {e : Event} (hs : s.Pending) (h : step s e = some t) : t.Pending := by
  cases step_cases h with
  | accept _ =>
    exact hs
  | validated c _ =>
    exact hs
  | close c _ =>
    exact hs
  | shyCheck n hok =>
    have hh : SmallHook none (onClientDisconnect n) := onClientDisconnect_smalls n
    exact (messageAllClients_smalls hh t hok).collects.pending hs
  | message n chance c msg _ hok =>
    obtain ⟨u, hu, hok⟩ := Outcome.bind_eq_ok.mp hok
    obtain ⟨hgarbage, hremovals, hbroadcasts⟩ := flushGarbage_notices (onClientDisconnect_smalls n) u hu
    have hpending : u.Pending := by
      unfold Pending at hs ⊢
      rw [hgarbage, hremovals, hbroadcasts, List.append_nil, hs]
    exact (handleMessage_changes (onClientDisconnect_smalls n) chance msg t hok).collects.pending hpending

theorem Reachable.pending (h : s.Reachable) : s.Pending := by
  obtain ⟨mapRand, enemyRand, closing, events, hrun⟩ := h
  have hstart : (start mapRand enemyRand closing).Pending := rfl
  exact Machine.invariant (fun _ _ _ => step_pending) hstart hrun

/-- Only a player that is erased a second time is put into `GarbageIDs` without an erasure. -/
theorem erasedID_eq_garbage {l : List Notice} :
    l.filterMap Notice.erasedID = l.filterMap Notice.garbage ↔ ∀ id, .repeated id ∉ l := by
  have hle : ∀ l : List Notice,
      (l.filterMap Notice.erasedID).length ≤ (l.filterMap Notice.garbage).length := by
    intro l
    induction l with
    | nil => exact Nat.le_refl _
    | cons n l ih =>
      simp only [List.filterMap_cons]
      cases n <;> simp only [Notice.erasedID, Notice.garbage, List.length_cons] <;> omega
  induction l with
  | nil => simp
  | cons n l ih =>
    cases n with
    | erased _ | broadcast _ | called _ =>
      simp [List.filterMap_cons, Notice.erasedID, Notice.garbage, ih]
    | repeated id =>
      refine iff_of_false (fun heq => ?_) (fun h => h id List.mem_cons_self)
      have hlen := congrArg List.length heq
      simp only [List.filterMap_cons, Notice.erasedID, Notice.garbage, List.length_cons] at hlen
      have := hle l
      omega

/-- The erased players are those that were announced and those that wait in `GarbageIDs`, as
long as none was erased by a nested call; and the next message announces the latter exactly
when no player's connection is found closed meanwhile. -/
theorem notices_iff (h : s.Reachable) :
    (s.erasures = s.broadcasts ++ s.garbageIDs ↔ ∀ id, .repeated id ∉ s.notices) ∧
    ∀ n, (∃ t, s.flushGarbage (onClientDisconnect (n + 1)) = .ok t ∧ t.garbageIDs = [] ∧
      t.removals = s.removals ∧ t.broadcasts = s.broadcasts ++ s.garbageIDs) ↔ s.FlushUndisturbed := by
  refine ⟨?_, fun n => ?_⟩
  · rw [← h.pending]
    exact erasedID_eq_garbage
  · rw [← flushGarbage_undisturbed (n := n)]
    constructor
    · rintro ⟨t, ht, _⟩
      exact ⟨t, ht⟩
    · rintro ⟨t, ht⟩
      exact ⟨t, ht, flushGarbage_notices (onClientDisconnect_smalls (n + 1)) t ht⟩

/-- The second of three players leaves, and the connection check finds it. -/
def secondLeaves : List Event :=
  [.accept, .accept, .accept, .message 0 (.always 10) 10000 (registerRequest Player.default),
    .message 0 (.always 10) 10001 (registerRequest Player.default),
    .message 0 (.always 10) 10002 (registerRequest Player.default), .close 10001, .shyCheck 1]

def flushes (s : Server) : Bool :=
  match s.flushGarbage unregisteredOnly with
  | .ok _ => true
  | _ => false

/-- The next message announces it. -/
theorem second_announced : ∃ s t : Server, s.Reachable ∧ s.erasures = [10001] ∧
    s.flushGarbage (onClientDisconnect 1) = .ok t ∧ t.broadcasts = [10001] := by
  have hrun : ((Machine.run step (start (fun _ => 0) (fun _ => 0) fun _ => []) secondLeaves).map
      fun s => (s.notices, s.garbageIDs, s.flushes)) = some ([.erased 10001], [10001], true) := by
    decide +kernel
  obtain ⟨s, hs, h⟩ := Option.map_eq_some_iff.mp hrun
  simp only [Prod.mk.injEq] at h
  obtain ⟨hnotices, hgarbage, hflush⟩ := h
  have hreachable : s.Reachable := ⟨_, _, _, _, hs⟩
  have hundisturbed : s.FlushUndisturbed := by
    unfold flushes at hflush
    split at hflush
    · rename_i t ht
      exact ⟨t, ht⟩
    · cases hflush
  obtain ⟨t, ht, _, _, hbroadcasts⟩ := ((notices_iff hreachable).2 0).mpr hundisturbed
  refine ⟨s, t, hreachable, by rw [erasures, hnotices]; rfl, ht, ?_⟩
  rw [hbroadcasts, broadcasts, hnotices, hgarbage]
  rfl

def flushFault (s : Server) : Option Fault :=
  match s.flushGarbage (onClientDisconnect 1) with
  | .fault e => some e
  | _ => none

def flushDeep (s : Server) : Bool :=
  match s.flushGarbage (onClientDisconnect 0) with
  | .deep => true
  | _ => false

/-- The third player leaves before the next message, which does not come to an end. -/
theorem third_lost : ∃ s : Server, s.Reachable ∧ s.garbageIDs = [10001] ∧
    s.flushGarbage (onClientDisconnect 1) = .fault .grownVector ∧
    ∀ n chance msg t, s.onMessage (onClientDisconnect n) chance 10000 msg ≠ .ok t := by
  have hrun : ((Machine.run step (start (fun _ => 0) (fun _ => 0) fun _ => [])
      (secondLeaves ++ [.close 10002])).map fun s => (s.garbageIDs, s.flushFault, s.flushDeep)) =
        some ([10001], some .grownVector, true) := by decide +kernel
  obtain ⟨s, hs, h⟩ := Option.map_eq_some_iff.mp hrun
  simp only [Prod.mk.injEq] at h
  obtain ⟨hgarbage, hone, hzero⟩ := h
  have hfault : s.flushGarbage (onClientDisconnect 1) = .fault .grownVector := by
    unfold flushFault at hone
    split at hone
    · rename_i e he
      rw [he, Option.some.inj hone]
    · cases hone
  refine ⟨s, ⟨_, _, _, _, hs⟩, hgarbage, hfault, fun n chance msg t hok => ?_⟩
  obtain ⟨u, hu, _⟩ := Outcome.bind_eq_ok.mp hok
  cases n with
  | zero =>
    unfold flushDeep at hzero
    rw [hu] at hzero
    cases hzero
  | succ n =>
    obtain ⟨v, hv⟩ := (flushGarbage_undisturbed (n := 0)).mpr (flushGarbage_undisturbed.mp ⟨u, hu⟩)
    rw [hfault] at hv
    cases hv

end Server

end AsciiTerra
