import AsciiTerra.ClientViews
import AsciiTerra.HookOrder

/-!
# Messages while no player leaves

`spared` stands for `OnClientDisconnect` as long as no player is found to have left. The
functions that send messages then change nothing but what the clients have been sent.
-/

set_option autoImplicit false

namespace AsciiTerra

open Outcome (Below Post)

namespace Server
variable {s t : Server} {m : Option Fault}
variable {order : Arrangement (OrderedMap.Entry UInt32 Player)} {map : Map}
variable {D D' : UInt32 → Client → Prop}

/-- `OnClientDisconnect` while no player leaves, cut off when one does. -/
def spared (m : Option Fault) : Nat → Option UInt32 → Server → Outcome Fault Server
  | 0, _, _ => .deep
  | _ + 1, none, _ => .fault .nullConnection
  | _ + 1, some c, s => if c ∈ s.gameWorld.playersList then .stop m else .ok s

theorem spared_some (m : Option Fault) (n : Nat) (c : UInt32) (s : Server) :
    spared m (n + 1) (some c) s = if c ∈ s.gameWorld.playersList then .stop m else .ok s := rfl

theorem spared_eq_ok {n : Nat} {c : UInt32} (h : spared m n (some c) s = .ok t) :
    c ∉ s.gameWorld.playersList ∧ t = s := by
  cases n with
  | zero => cases h
  | succ n =>
    rw [spared_some] at h
    split at h
    · exact absurd h.symm (Outcome.ok_ne_stop t m)
    · cases h
      exact ⟨‹_›, rfl⟩

theorem spared_below (n : Nat) (client : Option UInt32) (s : Server) :
    Below m (spared m n client s) (onClientDisconnect n client s) := by
  cases n with
  | zero => exact .refl _
  | succ n =>
    cases client with
    | none => exact .refl _
    | some c =>
      rw [spared_some]
      split
      · exact .of_stop _
      · rw [onClientDisconnect_of_not_mem ‹_›]
        exact .refl _

theorem spared_below_spared (m' : Option Fault) (n : Nat) (client : Option UInt32) (s : Server) :
    Below m (spared m n client s) (spared m' n client s) := by
  cases n with
  | zero => exact .refl _
  | succ n =>
    cases client with
    | none => exact .refl _
    | some c =>
      rw [spared_some, spared_some]
      split
      · exact .of_stop _
      · exact .refl _

theorem spared_spec (m : Option Fault) (n : Nat) : HookSpec (spared m n) :=
  hookSpec_of_below (spared_below n)

/-- What the messages to the clients have made of them. -/
def Shown (order : Arrangement (OrderedMap.Entry UInt32 Player)) (map : Map)
    (D : UInt32 → Client → Prop) (s : Server) : Prop :=
  ∀ e, Knows order map (D e) (s.stream e)

theorem Shown.congr (h : Shown order map D s) (hsent : t.sent = s.sent) : Shown order map D t := by
  intro e
  rw [stream_congr hsent]
  exact h e

theorem Shown.mono (h : Shown order map D s) (hD : ∀ e c, D e c → D' e c) : Shown order map D' s :=
  fun e => (h e).mono (hD e)

/-- Nothing but messages and connections has changed. -/
structure Kept (s t : Server) : Prop where
  gameWorld : t.gameWorld = s.gameWorld
  currentPlayerID : t.currentPlayerID = s.currentPlayerID
  garbageIDs : t.garbageIDs = s.garbageIDs
  wellFormed : t.WellFormed

section Spared
variable {n : Nat}

theorem messageClient_shown {c : UInt32} {msg : Message} (hwf : s.WellFormed) (hc : s.Accepted c)
    (hs : Shown order map D s)
    (hstep : ∀ cl cl', D c cl → cl.updatePlayer order msg = .ok cl' → D' c cl')
    (hrest : ∀ e cl, ¬ (e = c ∧ c ∈ s.gameWorld.playersList) → D e cl → D' e cl) :
    Post (fun t => Kept s t ∧ Shown order map D' t)
      (messageClient (spared m n) (some c) msg s) := by
  intro t ht
  have hwft := (messageClient_spec (spared_spec m n) hwf hc t ht).wellFormed
  by_cases hup : c ∈ s.tick.closed
  · rw [messageClient_closed hup] at ht
    obtain ⟨u, hu, ht⟩ := Outcome.bind_eq_ok.mp ht
    obtain ⟨hleft, rfl⟩ := spared_eq_ok hu
    cases ht
    refine ⟨⟨rfl, rfl, rfl, hwft⟩, fun e => ?_⟩
    have hsame : s.tick.eraseNulls.stream e = s.stream e := stream_congr rfl e
    rw [hsame]
    exact (hs e).mono fun cl => hrest e cl fun h => hleft h.2
  · rw [messageClient_open hup] at ht
    cases ht
    refine ⟨⟨rfl, rfl, rfl, hwft⟩, fun e => ?_⟩
    have hsame : s.tick.stream e = s.stream e := stream_congr rfl e
    by_cases he : e = c
    · subst he
      rw [stream_send_self, hsame]
      exact (hs e).concat hstep
    · rw [stream_send_ne he, hsame]
      exact (hs e).mono fun cl => hrest e cl fun h => he h.1

/-- The loop of a broadcast: the first `k` entries have been visited. -/
structure Telling (order : Arrangement (OrderedMap.Entry UInt32 Player)) (map : Map)
    (D D' : UInt32 → Client → Prop) (s : Server) (k : Nat) (st : Server × Bool) : Prop where
  gameWorld : st.1.gameWorld = s.gameWorld
  currentPlayerID : st.1.currentPlayerID = s.currentPlayerID
  garbageIDs : st.1.garbageIDs = s.garbageIDs
  ahead : Ahead s k st
  told : ∀ e, some e ∈ s.deqConnection.take k → Knows order map (D' e) (st.1.stream e)
  untold : ∀ e, some e ∉ s.deqConnection.take k → Knows order map (D e) (st.1.stream e)

theorem Telling.next {k : Nat} {u v : Server} {b b' : Bool} {c : UInt32}
    (hwf : s.WellFormed) (h : Telling order map D D' s k (u, b))
    (hentry : s.deqConnection[k]? = some (some c))
    (hworld : v.gameWorld = u.gameWorld) (hcurrent : v.currentPlayerID = u.currentPlayerID)
    (hgarbage : v.garbageIDs = u.garbageIDs) (hahead : Ahead s (k + 1) (v, b'))
    (hself : Knows order map (D c) (u.stream c) → Knows order map (D' c) (v.stream c))
    (hother : ∀ e, e ≠ c → v.stream e = u.stream e) :
    Telling order map D D' s (k + 1) (v, b') := by
  have htake : s.deqConnection.take (k + 1) = s.deqConnection.take k ++ [some c] := by
    rw [List.take_add_one, hentry]
    rfl
  refine ⟨hworld.trans h.gameWorld, hcurrent.trans h.currentPlayerID, hgarbage.trans h.garbageIDs,
    hahead, fun e he => ?_, fun e he => ?_⟩
  · by_cases hec : e = c
    · subst hec
      exact hself (h.untold e (not_mem_take hwf hentry))
    · rw [htake, List.mem_append, List.mem_singleton] at he
      have hbefore := he.resolve_right fun heq => hec (Option.some.inj heq)
      change Knows order map (D' e) (v.stream e)
      rw [hother e hec]
      exact h.told e hbefore
  · rw [htake, List.mem_append, List.mem_singleton, not_or] at he
    change Knows order map (D e) (v.stream e)
    rw [hother e fun hec => he.2 (congrArg some hec)]
    exact h.untold e he.1

theorem messageAllClients_shown {msg : Message} {ignore : Option UInt32} (hwf : s.WellFormed)
    (hs : Shown order map D s)
    (hstep : ∀ e cl cl', some e ≠ ignore → D e cl → cl.updatePlayer order msg = .ok cl' → D' e cl')
    (hrest : ∀ e cl, e ∉ s.gameWorld.playersList ∨ some e = ignore → D e cl → D' e cl) :
    Post (fun t => Kept s t ∧ Shown order map D' t)
      (messageAllClients (spared m n) msg ignore s) := by
  intro t ht
  have hwft := (messageAllClients_spec (spared_spec m n) hwf t ht).wellFormed
  have hloop : Post (Telling order map D D' s s.deqConnection.length)
      ((List.range s.deqConnection.length).foldlM (messageEntry (spared m n) msg ignore)
        (s, false)) := by
    refine Post.foldlM_range (I := Telling order map D D' s)
      ⟨rfl, rfl, rfl, ⟨rfl, fun _ _ => rfl⟩, fun e he => (nomatch he), fun e _ => hs e⟩ ?_
    intro k st hk hst
    obtain ⟨u, b⟩ := st
    obtain ⟨hlength, hsame⟩ := hst.ahead
    have hnow : u.deqConnection[k]? = s.deqConnection[k]? := hsame k (Nat.le_refl k)
    have hlater : ∀ v : Server, v.deqConnection = u.deqConnection →
        ∀ b', Ahead s (k + 1) (v, b') := by
      intro v hv b'
      refine ⟨(congrArg List.length hv).trans hlength, fun j hj => ?_⟩
      rw [hv]
      exact hsame j (by omega)
    refine messageEntry_post (spared_spec m n).null ?_ ?_ ?_
    · intro c hentry hup v hv hkept
      obtain ⟨hleft, rfl⟩ := spared_eq_ok hv
      refine hst.next hwf (hnow ▸ hentry) rfl rfl rfl ?_ ?_ fun e _ => stream_congr rfl e
      · refine ⟨?_, fun j hj => ?_⟩
        · exact (List.length_set ..).trans hlength
        · have hne : k ≠ j := by omega
          exact (List.getElem?_set_ne hne).trans (hsame j (by omega))
      · intro hknown
        have hout : c ∉ s.gameWorld.playersList := hst.gameWorld ▸ hleft
        exact hknown.mono fun cl => hrest c cl (Or.inl hout)
    · intro c hentry _ hne
      refine hst.next hwf (hnow ▸ hentry) rfl rfl rfl (hlater _ rfl b) ?_ ?_
      · intro hknown
        rw [stream_send_self, stream_congr (t := u.tick) (s := u) rfl]
        exact hknown.concat fun cl cl' => hstep c cl cl' hne
      · intro e he
        rw [stream_send_ne he]
        exact stream_congr rfl e
    · intro c hentry _ heq
      refine hst.next hwf (hnow ▸ hentry) rfl rfl rfl (hlater _ rfl b) ?_
        fun e _ => stream_congr rfl e
      exact fun hknown => hknown.mono fun cl => hrest c cl (Or.inr heq)
  have hend : ∀ st, Telling order map D D' s s.deqConnection.length st →
      Shown order map D' st.1 := by
    intro st hst e
    by_cases hlisted : some e ∈ s.deqConnection
    · exact hst.told e (by rwa [List.take_length])
    · have hout : e ∉ s.gameWorld.playersList :=
        fun hmem => hlisted (mem_ids.mp (hwf.present e hmem))
      refine (hst.untold e (by rwa [List.take_length])).mono fun cl => hrest e cl (Or.inl hout)
  obtain ⟨st, hst, ht⟩ := Outcome.bind_eq_ok.mp ht
  have htold := hloop st hst
  have hshown := hend st htold
  cases ht
  split at hwft
  · rename_i hflag
    rw [if_pos hflag]
    exact ⟨⟨htold.gameWorld, htold.currentPlayerID, htold.garbageIDs, hwft⟩, hshown.congr rfl⟩
  · rename_i hflag
    rw [if_neg hflag]
    exact ⟨⟨htold.gameWorld, htold.currentPlayerID, htold.garbageIDs, hwft⟩, hshown⟩

end Spared

end Server

end AsciiTerra
